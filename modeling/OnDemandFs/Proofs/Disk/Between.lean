import OnDemandFs.Proofs.Disk.Steps

/-!
# What is found between the steps

A place that is reached past no link, and is neither a staged file nor on the way to the target, is
found between any two steps of a publication as it was before; only the target may be found with the
new file. That needs a disk where names stand in directories: otherwise a directory that is made on
the way could bring up something that stood below it all the time.
-/
namespace OnDemandFs.Disk

variable {d₀ d : Disk} {top l dir target : Location}

/-- What is found past no link is found at the place that the path spells. -/
theorem Straight.find_place (h : d.Straight l) (hplain : ∀ n ∈ l, IsPlainName n) {fl : Bool}
    {q : Location} {o : Object} (hfind : d.find fl l = .ok (q, o)) : q = l ∧ d.at? l = some o := by
  obtain ⟨hfault, hwalk, hat⟩ := find_eq_ok_iff.mp hfind
  have hq : q = l := h.spot hplain (spot_eq_ok_iff.mpr ⟨hfault, hwalk⟩)
  rw [← hq]
  exact ⟨rfl, hat⟩

/-- The same place with the same kind of object on it, or the same failure; all that something is
missing from count as one. -/
inductive SameFind : Except IoFault (Location × Object) → Except IoFault (Location × Object) → Prop
  | found {l : Location} {o o' : Object} : o'.stand = o.stand → SameFind (.ok (l, o)) (.ok (l, o'))
  | missing {fault fault' : IoFault} : isMissing fault = true → isMissing fault' = true →
      SameFind (.error fault) (.error fault')
  | failed (fault : IoFault) : SameFind (.error fault) (.error fault)

theorem sameFind_of_stands (hrooted : d₀.IsRooted top) (hl : top <+: l)
    (hcarried : ∀ n ∈ l, IsCarried n) (hstraight₀ : d₀.Straight l) (hstraight : d.Straight l)
    (hstands : d.stands l = d₀.stands l)
    (hdirectories : ∀ q, d₀.stands q = some .directory → d.stands q = some .directory) (fl : Bool) :
    SameFind (d₀.find fl l) (d.find fl l) := by
  by_cases hfits : Fits l
  · cases hx : d₀.stands l with
    | none =>
        obtain ⟨fault, hfind, hmissing⟩ := hstraight₀.find_of_free hcarried hfits hx fl
        obtain ⟨fault', hfind', hmissing'⟩ :=
          hstraight.find_of_free hcarried hfits (hstands.trans hx) fl
        rw [hfind, hfind']
        exact .missing hmissing hmissing'
    | some x =>
        have hway : d₀.WayDown [] l := hrooted.wayDown hl (by rw [hx]; nofun)
        have hway' : d.WayDown [] l := fun pre n hpre => hdirectories _ (hway pre n hpre)
        obtain ⟨o, hat, ho⟩ := stands_eq_some_iff.mp hx
        obtain ⟨o', hat', ho'⟩ := stands_eq_some_iff.mp (hstands.trans hx)
        have hspot : d₀.spot fl l = .ok l := spot_of_wayDown hcarried hfits hway
          (fun target => hstraight₀ l target (List.prefix_refl l)) fl
        have hspot' : d.spot fl l = .ok l := spot_of_wayDown hcarried hfits hway'
          (fun target => hstraight l target (List.prefix_refl l)) fl
        rw [find_of_spot hspot hat, find_of_spot hspot' hat']
        exact .found (ho'.trans ho.symm)
  · have hfault : pathFault? l ≠ none := by
      rw [Ne, pathFault?_eq_none_iff hcarried]
      exact hfits
    obtain ⟨fault, hfault⟩ := Option.ne_none_iff_exists'.mp hfault
    have hspot (e : Disk) : e.spot fl l = .error fault := by
      rw [spot, hfault]
    rw [find_of_spot_error (hspot d₀), find_of_spot_error (hspot d)]
    exact .failed fault

/-- Between any two steps a place is found as it was, or it is the target with the new file. -/
theorem Publication.Effect.find {p : Publication} {content : Bytes}
    (h : p.Effect dir target content d₀ d) (hrooted : d₀.IsRooted top) (hl : top <+: l)
    (hcarried : ∀ n ∈ l, IsCarried n) (hstraight : d₀.Straight l) (hway : ¬ l <+: dir)
    (hname : ∀ n, IsStaging n → l ≠ dir ++ [n]) :
    SameFind (d₀.find true l) (d.find true l) ∨
      (p = .finished (.ok ()) ∧ l = target ∧
        ∃ id, Published dir target content d₀ id d ∧ d.find true l = .ok (l, .file id)) := by
  by_cases hdone : p = .finished (.ok ()) ∧ l = target
  · obtain ⟨rfl, rfl⟩ := hdone
    obtain ⟨id, hpublished⟩ := h
    exact .inr ⟨rfl, rfl, id, hpublished, hpublished.found⟩
  · left
    have hstaged : p.staged? ≠ some l := by
      intro hstaged
      obtain ⟨id, hstaged⟩ := h.staged hstaged
      obtain ⟨n, hn, heq⟩ := hstaged.name
      exact hname n hn heq
    have hsame : d.stands l = d₀.stands l := by
      rcases h.others hstaged fun hp heq => hdone ⟨hp, heq⟩ with hsame | ⟨hpre, -⟩
      · exact hsame
      · exact absurd hpre hway
    exact sameFind_of_stands hrooted hl hcarried hstraight (h.straight hstraight) hsame
      (fun q hq => h.isDirectory hq) true

end OnDemandFs.Disk
