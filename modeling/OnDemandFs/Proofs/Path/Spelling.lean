import OnDemandFs.Path

/-!
# Spellings of a path

A slash between two texts keeps their segments apart, so putting a name behind the spelling of a
directory continues the path of the directory by that name, whatever the spelling.
-/
namespace OnDemandFs

theorem segments_append_slash (t u : String) :
    segments (t ++ "/" ++ u) = segments t ++ segments u := by
  unfold segments
  have htext : (t ++ "/" ++ u).toList = t.toList ++ '/' :: u.toList := by
    rw [String.append_assoc, String.toList_append, String.toList_append]
    rfl
  have hcut : (t.toList ++ '/' :: u.toList).splitOn '/' =
      t.toList.splitOn '/' ++ u.toList.splitOn '/' := by
    rw [List.splitOn_eq_splitOnP, List.splitOn_eq_splitOnP, List.splitOn_eq_splitOnP]
    exact List.splitOnP_append_cons _ _ (by simp)
  rw [htext, hcut, List.map_append, List.filter_append]

theorem segments_of_isSegment {n : String} (h : IsSegment n) : segments n = [n] := by
  obtain ⟨hempty, hdot, hslash⟩ := h
  rw [segments, List.splitOn_eq_singleton hslash]
  simp [hempty, hdot]

namespace Path

theorem names_extend_of_isSegment (p : Path) {n : String} (h : IsSegment n) :
    (p.extend n).names = p.names ++ [n] := by
  rw [names_extend, segments_of_isSegment h]

theorem extend_injective {p q : Path} {m n : String} (hm : IsSegment m) (hn : IsSegment n)
    (h : p.extend m = q.extend n) : p = q ∧ m = n := by
  have hnames := congrArg Path.names h
  rw [names_extend_of_isSegment p hm, names_extend_of_isSegment q hn] at hnames
  obtain ⟨hp, hmn⟩ := List.append_inj' hnames rfl
  exact ⟨ext_names hp, List.head_eq_of_cons_eq hmn⟩

theorem isRoot_extend (p : Path) {n : String} (h : IsSegment n) : (p.extend n).isRoot = false := by
  rw [isRoot, names_extend_of_isSegment p h]
  simp

theorem parent_extend (p : Path) {n : String} (h : IsSegment n) : (p.extend n).parent = p := by
  apply ext_names
  rw [names_parent, p.names_extend_of_isSegment h, List.dropLast_concat]

/-- A text without a slash that is no segment leads nowhere. -/
theorem extend_of_not_isSegment (p : Path) {n : String} (hslash : '/' ∉ n.toList)
    (h : ¬ IsSegment n) : p.extend n = p := by
  have hstay : n = "" ∨ n = "." := Decidable.not_not.mp fun hne =>
    h ⟨fun hempty => hne (.inl hempty), fun hdot => hne (.inr hdot), hslash⟩
  have hsegments : segments n = [] := by
    rcases hstay with rfl | rfl <;> decide
  apply ext_names
  rw [names_extend, hsegments, List.append_nil]

theorem fileName_extend (p : Path) {n : String} (h : IsSegment n) : (p.extend n).fileName = n := by
  rw [fileName, p.names_extend_of_isSegment h, List.getLast?_concat]
  rfl

/-- Every path is the root or continues another. -/
theorem eq_root_or_extend (p : Path) :
    p = root ∨ ∃ (q : Path) (n : String), IsSegment n ∧ p = q.extend n := by
  rcases p.names.eq_nil_or_concat with hnil | ⟨names, n, hnames⟩
  · exact .inl (ext_names hnil)
  · have hsegments : ∀ m ∈ names ++ [n], IsSegment m := by
      rw [← List.concat_eq_append, ← hnames]
      exact p.allSegments
    have hn : IsSegment n := hsegments n (by simp)
    refine .inr ⟨⟨names, fun m hm => hsegments m (List.mem_append_left _ hm)⟩, n, hn, ?_⟩
    apply ext_names
    rw [names_extend_of_isSegment _ hn, hnames, List.concat_eq_append]

/-- Every path is built from the root, segment by segment. -/
@[elab_as_elim]
theorem extendInduction {motive : Path → Prop} (root : motive root)
    (extend : ∀ (q : Path) (n : String), IsSegment n → motive q → motive (q.extend n))
    (p : Path) : motive p := by
  induction hdepth : p.names.length generalizing p with
  | zero =>
      obtain rfl : p = Path.root := ext_names (List.length_eq_zero_iff.mp hdepth)
      exact root
  | succ k ih =>
      rcases p.eq_root_or_extend with rfl | ⟨q, n, hn, rfl⟩
      · cases hdepth
      · rw [names_extend_of_isSegment q hn, List.length_append] at hdepth
        exact extend q n hn (ih q (Nat.succ.inj hdepth))

theorem ofText_joinText (t n : String) : ofText (joinText t n) = (ofText t).extend n := by
  apply ext_names
  rw [names_ofText, names_extend, names_ofText, joinText]
  split
  · next h =>
      subst h
      exact segments_append_slash "" n
  · exact segments_append_slash t n

/-- The tidy spelling of a path that continues another. -/
theorem text_extend (p : Path) {n : String} (hn : IsSegment n) :
    (p.extend n).text = joinText p.text n := by
  have hnames := p.names_extend_of_isSegment hn
  have hlong : (p.extend n).text =
      String.ofList ((p.names ++ [n]).flatMap fun m => '/' :: m.toList) := by
    unfold text
    rw [hnames, if_neg (by simp)]
  rw [hlong, List.flatMap_append, List.flatMap_singleton]
  unfold joinText text
  cases hp : p.names with
  | nil =>
      rw [if_pos List.isEmpty_nil, if_pos rfl, List.flatMap_nil, List.nil_append]
      exact String.toList_injective (by simp)
  | cons m rest =>
      have hm : m ≠ "" := (p.allSegments m (by rw [hp]; exact List.mem_cons_self)).1
      have hne : String.ofList ((m :: rest).flatMap fun m => '/' :: m.toList) ≠ "/" := by
        intro heq
        have hlist := congrArg String.toList heq
        rw [String.toList_ofList, List.flatMap_cons] at hlist
        have hnil := List.append_eq_nil_iff.mp (List.cons.inj hlist).2
        exact hm (String.toList_eq_nil_iff.mp hnil.1)
      simp only [List.isEmpty_cons, Bool.false_eq_true, if_false, if_neg hne]
      exact String.toList_injective (by simp)

/-- The tidy spelling denotes its path. -/
theorem ofText_text (p : Path) : ofText p.text = p := by
  induction p using extendInduction with
  | root => exact ext_names (by decide)
  | extend q n hn ih => rw [text_extend q hn, ofText_joinText, ih]

end Path

/-- Two texts have one tidy spelling just if they denote one path. -/
theorem normalize_eq_iff {a b : String} :
    normalize a = normalize b ↔ Path.ofText a = .ofText b := by
  unfold normalize
  constructor
  · intro h
    have hpaths := congrArg Path.ofText h
    rwa [Path.ofText_text, Path.ofText_text] at hpaths
  · exact congrArg Path.text

end OnDemandFs
