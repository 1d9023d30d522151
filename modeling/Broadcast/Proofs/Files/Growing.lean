import Broadcast.Proofs.Files.Spared

/-!
# Growing trees

A tree grows when something is put where nothing was. Whatever could be reached
before is then still there, and it is the same: what was read is read again.
-/

namespace Broadcast.Files

structure Grows (fs gs : Files) : Prop where
  here : gs.here = fs.here
  entry : ∀ {loc e}, fs.get? loc = some e → gs.get? loc = some e

namespace Grows

theorem refl (fs : Files) : fs.Grows fs := ⟨rfl, fun h => h⟩

theorem trans {fs gs ks : Files} (h : fs.Grows gs) (k : gs.Grows ks) : fs.Grows ks :=
  ⟨k.here.trans h.here, fun he => k.entry (h.entry he)⟩

variable {fs gs : Files} (h : fs.Grows gs)
include h

theorem keeps : fs.Keeps gs := ⟨h.here, fun _ hd => h.entry hd⟩

theorem enter {loc l : Location} {s : String} (he : fs.enter loc s = .ok l) : gs.enter loc s = .ok l := by
  obtain ⟨p, hp, hs, rfl⟩ := enter_eq_ok.mp he
  obtain ⟨e, hsome⟩ := Option.isSome_iff_exists.mp hs
  exact enter_eq_ok.mpr ⟨p, h.keeps.step hp, by rw [h.entry hsome]; rfl, rfl⟩

theorem enterAll {l : Location} : ∀ (ss : List String) {loc : Location},
    ss.foldlM fs.enter loc = .ok l → ss.foldlM gs.enter loc = .ok l
  | [], _, hl => hl
  | s :: ss, loc, hl => by
    rw [List.foldlM_cons] at hl ⊢
    cases he : fs.enter loc s with
    | error e => rw [he] at hl; cases hl
    | ok m =>
      rw [he] at hl
      rw [h.enter he]
      exact enterAll ss hl

theorem locate {path : String} {loc : Location} {e : Entry} (hl : fs.locate path = .ok loc)
    (he : fs.get? loc = some e) : gs.locate path = .ok loc := by
  have hstart : gs.start path = fs.start path := by unfold start; rw [h.here]
  unfold Files.locate at hl ⊢
  rw [hstart]
  cases hc : Path.check path with
  | error f => rw [hc] at hl; cases hl
  | ok u =>
    cases hw : (Path.steps path).foldlM fs.enter (fs.start path) with
    | error f => rw [hc, hw] at hl; cases hl
    | ok l =>
      rw [hc, hw] at hl
      rw [h.enterAll _ hw]
      simp only [bind, Except.bind] at hl ⊢
      split at hl
      · cases hl
      · rename_i ho
        cases hl
        rw [he] at ho
        rw [h.entry he, if_neg ho]

theorem readBytes {path : String} {bytes : ByteArray} (hr : fs.readBytes path = .ok bytes) :
    gs.readBytes path = .ok bytes := by
  unfold Files.readBytes at hr ⊢
  cases hl : fs.locate path with
  | error f => rw [hl] at hr; cases hr
  | ok loc =>
    rw [hl] at hr
    simp only [bind, Except.bind] at hr ⊢
    cases he : fs.get? loc with
    | none => rw [he] at hr; cases hr
    | some e =>
      rw [he] at hr
      rw [h.locate hl he]
      simp only [h.entry he]
      exact hr

theorem readText {path text : String} (hr : fs.readText path = .ok text) : gs.readText path = .ok text := by
  unfold Files.readText at hr ⊢
  cases hb : fs.readBytes path with
  | error f => rw [hb] at hr; cases hr
  | ok bytes => rw [hb] at hr; rw [h.readBytes hb]; exact hr

end Grows

theorem Made.grows {fs gs : Files} (h : fs.Made gs) : fs.Grows gs := by
  refine ⟨h.here, fun {loc e} he => ?_⟩
  rcases h.get? loc with hg | ⟨hn, -⟩
  · exact hg.trans he
  · rw [hn] at he; cases he

theorem made_makeDirectories (fs : Files) (path : String) : fs.Made (fs.makeDirectories path).1 := by
  unfold makeDirectories
  split
  · exact .refl fs
  · exact made_attempt (made_makeParts fs _ _)

theorem grows_put {fs : Files} {loc : Location} {e : Entry} (hne : loc ≠ [])
    (h : fs.get? loc = none ∨ fs.get? loc = some e) : fs.Grows (fs.put loc e) := by
  refine ⟨rfl, fun {other e'} ho => ?_⟩
  by_cases heq : other = loc
  · subst heq
    rw [get?_put fs hne]
    rcases h with hn | he
    · rw [hn] at ho; cases ho
    · exact he.symm.trans ho
  · rw [get?_put_of_ne fs heq]
    exact ho

theorem grows_of_write {fs gs : Files} {path : String} {bytes : ByteArray}
    (hr : (fs.readBytes path).toOption.getD .empty = bytes) (hw : fs.write path bytes = .ok gs) : fs.Grows gs := by
  obtain ⟨loc, hp, ho, hd, -⟩ := write_eq_ok hw
  have hne : loc ≠ [] := named_place_ne_nil hp
  rw [readBytes_of_named hp, ho] at hr
  unfold contents at hr
  cases hg : fs.get? loc with
  | none =>
    rw [write_of_named hp ho hd (by rw [hg]; simp)] at hw
    cases hw
    exact grows_put hne (.inl hg)
  | some e =>
    cases e with
    | directory => exact absurd hg hd
    | terminal =>
      simp only [write, hp, ho, hg, bind, Except.bind, Bool.false_eq_true, ite_false] at hw
      cases hw
      exact .refl fs
    | file old =>
      rw [write_of_named hp ho hd (by rw [hg]; simp)] at hw
      rw [hg] at hr
      cases hw
      cases hr
      exact grows_put hne (.inr hg)

end Broadcast.Files
