import Broadcast.Proofs.Files.Replace

/-!
# Replacing a file again

Where a file was replaced once, its directories are there and nothing stands in
the way of its temporary file, so it can be replaced again.
-/

namespace Broadcast.Files

/-! ## Directories stay -/

theorem directory_of_enterAll {fs : Files} {ss : List String} {loc l : Location}
    (h : ss.foldlM fs.enter loc = .ok l) (hd : fs.get? l = some .directory) : fs.get? loc = some .directory := by
  cases ss with
  | nil => cases h; exact hd
  | cons s ss =>
    rw [List.foldlM_cons] at h
    cases he : fs.enter loc s with
    | error e => rw [he] at h; cases h
    | ok m =>
      obtain ⟨p, hp, -⟩ := enter_eq_ok.mp he
      exact directory_of_step hp

theorem Keeps.enterAll {fs gs : Files} (k : fs.Keeps gs) (ss : List String) {l : Location}
    (hd : fs.get? l = some .directory) :
    ∀ {loc : Location}, ss.foldlM fs.enter loc = .ok l → ss.foldlM gs.enter loc = .ok l := by
  induction ss with
  | nil => intro loc h; exact h
  | cons s ss ih =>
    intro loc h
    rw [List.foldlM_cons] at h ⊢
    cases he : fs.enter loc s with
    | error e => rw [he] at h; cases h
    | ok m =>
      rw [he] at h
      obtain ⟨p, hp, -, rfl⟩ := enter_eq_ok.mp he
      have hm : gs.get? p.loc = some .directory := k.directory _ (directory_of_enterAll h hd)
      have hg : gs.enter loc s = .ok p.loc := enter_eq_ok.mpr ⟨p, k.step hp, by rw [hm]; rfl, rfl⟩
      rw [hg]
      exact ih h

theorem isDirectory_iff {fs : Files} {path : String} :
    fs.isDirectory path = true ↔ Path.check path = .ok () ∧
      ∃ l, (Path.steps path).foldlM fs.enter (fs.start path) = .ok l ∧ fs.get? l = some .directory := by
  unfold isDirectory find? locate
  rw [decide_eq_true_eq]
  cases Path.check path with
  | error e => simp [bind, Except.bind]
  | ok u =>
    cases u
    cases hf : (Path.steps path).foldlM fs.enter (fs.start path) with
    | error e => simp [bind, Except.bind]
    | ok l =>
      simp only [bind, Except.bind]
      constructor
      · intro h
        refine ⟨trivial, l, rfl, ?_⟩
        split at h
        · rename_i m hm
          split at hm
          · cases hm
          · cases hm; exact h
        · cases h
      · rintro ⟨-, m, hm, hd⟩
        cases hm
        simp [hd]

theorem Keeps.isDirectory {fs gs : Files} (k : fs.Keeps gs) {path : String} (h : fs.isDirectory path = true) :
    gs.isDirectory path = true := by
  obtain ⟨hc, l, hl, hd⟩ := isDirectory_iff.mp h
  have hs : gs.start path = fs.start path := by unfold start; rw [k.here]
  exact isDirectory_iff.mpr ⟨hc, l, by rw [hs]; exact k.enterAll _ hd hl, k.directory l hd⟩

/-! ## Making what is there -/

theorem enterAll_of_named {fs : Files} {path : String} {loc : Location} (h : fs.place path = .ok (.named loc)) :
    Path.check path = .ok () ∧
      ∀ l, (Path.steps path).foldlM fs.enter (fs.start path) = .ok l ↔ (fs.get? loc).isSome ∧ l = loc := by
  obtain ⟨hc, ⟨-, hn⟩ | ⟨last, hl, hw⟩⟩ := place_eq_ok.mp h
  · cases hn
  · refine ⟨hc, fun l => ?_⟩
    obtain ⟨ss, hss⟩ := List.getLast?_eq_some_iff.mp hl
    rw [hss, List.dropLast_concat] at hw
    rw [hss, List.foldlM_append]
    unfold walk at hw
    cases hf : ss.foldlM fs.enter (fs.start path) with
    | error e => rw [hf] at hw; cases hw
    | ok m =>
      rw [hf] at hw
      have hst : fs.step m last = .ok (.named loc) := hw
      have hone : [last].foldlM fs.enter m = fs.enter m last := by
        rw [List.foldlM_cons]
        cases fs.enter m last <;> rfl
      have hgo : ((Except.ok m : Except Fault Location) >>= fun l => [last].foldlM fs.enter l) = fs.enter m last := hone
      rw [hgo, enter_eq_ok]
      constructor
      · rintro ⟨p, hp, hs, rfl⟩
        cases hst.symm.trans hp
        exact ⟨hs, rfl⟩
      · rintro ⟨hs, rfl⟩
        exact ⟨_, hst, hs, rfl⟩

theorem makeDirectory_eq_ok {fs gs : Files} {path : String} (h : fs.makeDirectory path = .ok gs) :
    ∃ loc, fs.place path = .ok (.named loc) ∧ fs.get? loc = none ∧ gs = fs.put loc .directory := by
  unfold makeDirectory at h
  cases hp : fs.place path with
  | error e => rw [hp] at h; cases h
  | ok p =>
    rw [hp] at h
    cases p with
    | inside l => cases h
    | named loc =>
      change (if (fs.get? loc).isSome = true then _ else _) = Except.ok gs at h
      split at h
      · cases h
      · rename_i hs
        cases h
        exact ⟨loc, rfl, by simpa using hs, rfl⟩

theorem isDirectory_of_ensureDirectory {fs gs : Files} {path : String} (h : fs.ensureDirectory path = .ok gs) :
    gs.isDirectory path = true := by
  unfold ensureDirectory at h
  cases hm : fs.makeDirectory path with
  | ok ks =>
    rw [hm] at h
    cases h
    obtain ⟨loc, hp, hn, rfl⟩ := makeDirectory_eq_ok hm
    have hk : fs.Keeps (fs.put loc .directory) := keeps_put (by rw [hn]; simp) _
    have hg : (fs.put loc .directory).get? loc = some .directory := get?_put fs (named_place_ne_nil hp) _
    obtain ⟨hc, hl⟩ := enterAll_of_named (hk.place hp)
    exact isDirectory_iff.mpr ⟨hc, loc, (hl loc).mpr ⟨by rw [hg]; rfl, rfl⟩, hg⟩
  | error e =>
    rw [hm] at h
    simp only at h
    split at h
    · rename_i hd; cases h; exact hd
    · cases h

theorem ensureDirectory_of_isDirectory {fs : Files} {path : String} (h : fs.isDirectory path = true) :
    fs.ensureDirectory path = .ok fs := by
  unfold ensureDirectory
  cases hm : fs.makeDirectory path with
  | error e => exact if_pos h
  | ok gs =>
    -- only what is missing is made
    obtain ⟨loc, hp, hn, -⟩ := makeDirectory_eq_ok hm
    obtain ⟨-, l, hl, -⟩ := isDirectory_iff.mp h
    have hs := (((enterAll_of_named hp).2 l).mp hl).1
    rw [hn] at hs
    cases hs

theorem isDirectory_of_attempt {fs gs : Files} {path : String} {before : Files × Option Fault}
    (h : makeParts.attempt fs path before = (gs, none)) : gs.isDirectory path = true := by
  unfold makeParts.attempt at h
  split at h
  · rename_i ks hk; cases h; exact isDirectory_of_ensureDirectory hk
  · split at h
    · cases h
    · split at h
      · rename_i ks hk; cases h; exact isDirectory_of_ensureDirectory hk
      · cases h
  · cases h

theorem hasParent_of_makeParents {fs ks : Files} {path : String} (h : fs.makeParents path = (ks, none)) :
    ks.hasParent path = true := by
  unfold makeParents at h
  unfold hasParent
  cases hp : Path.parent? path with
  | none => rfl
  | some parent =>
    rw [hp] at h
    simp only at h ⊢
    unfold makeDirectories at h
    split at h
    · rename_i he
      simp only [he, decide_true, Bool.true_or]
    · rw [isDirectory_of_attempt h, Bool.or_true]

theorem hasParent_of_makeParentsAmid {m? : Option Mishap} {fs ks : Files} {path : String}
    (h : fs.makeParentsAmid m? path = (ks, none)) : ks.hasParent path = true := by
  unfold makeParentsAmid at h
  split at h
  · split at h
    · cases h
    · simp only [Prod.mk.injEq] at h
      obtain ⟨rfl, hparent⟩ := h
      split at hparent
      · assumption
      · cases hparent
  · exact hasParent_of_makeParents h

theorem makeParents_again {ks gs : Files} {path : String} (h : ks.hasParent path = true) (k : ks.Keeps gs) :
    gs.makeParents path = (gs, none) := by
  unfold hasParent at h
  unfold makeParents
  cases hp : Path.parent? path with
  | none => rfl
  | some parent =>
    rw [hp] at h
    simp only [Bool.or_eq_true, decide_eq_true_eq] at h
    simp only
    unfold makeDirectories
    split
    · rfl
    · rename_i hne
      have hd := k.isDirectory (h.resolve_left hne)
      unfold makeParts.attempt
      rw [ensureDirectory_of_isDirectory hd]

/-! ## Replacing -/

theorem write_of_named {fs : Files} {path : String} {loc : Location} (hp : fs.place path = .ok (.named loc))
    (ho : Path.isOpen path = false) (hd : fs.get? loc ≠ some .directory) (ht : fs.get? loc ≠ some .terminal)
    (bytes : ByteArray) : fs.write path bytes = .ok (fs.put loc (.file bytes)) := by
  unfold write
  rw [hp]
  change (if Path.isOpen path = true then _ else _) = _
  rw [ho]
  simp only [Bool.false_eq_true, ite_false]

theorem sync_of_file {fs : Files} {path : String} {loc : Location} {bytes : ByteArray}
    (hp : fs.place path = .ok (.named loc)) (ho : Path.isOpen path = false) (hg : fs.get? loc = some (.file bytes)) :
    fs.sync path = none := by
  have hl := locate_of_named hp (by rw [hg]; rfl) ho
  have hf : fs.find? path = some (.file bytes) := by unfold find?; rw [hl]; exact hg
  unfold sync
  rw [hf]
  exact if_neg (by simp)

theorem move_of_named {fs : Files} {source target : String} {old new : Location} {e : Entry}
    (hs : fs.place source = .ok (.named old)) (ht : fs.place target = .ok (.named new)) (he : fs.get? old = some e)
    (ho : Path.isOpen target = false) (hd : fs.get? new ≠ some .directory) :
    fs.move source target = .ok ((fs.erase old).put new e) := by
  unfold move
  rw [hs, ht]
  simp only [bind, Except.bind, he, ho, Bool.false_eq_true, ite_false, if_neg hd]

theorem get?_erase (fs : Files) {loc : Location} (h : loc ≠ []) : (fs.erase loc).get? loc = none := by
  simp [get?, erase, h]

theorem replaceAmid_of_steps {ks ws gs : Files} {path text : String} (hp : ks.makeParents path = (ks, none))
    (hw : ks.write (temporary path) text.toUTF8 = .ok ws) (hy : ws.sync (temporary path) = none)
    (hv : ws.move (temporary path) path = .ok gs) : replaceAmid none ks path text = (gs, none) := by
  have hparents : ks.makeParentsAmid none path = (ks, none) := hp
  have hwrite : ks.writeAmid none (temporary path) text.toUTF8 = (ws, none) := by
    unfold writeAmid
    rw [hw]
  have hsync : ws.syncAmid none (temporary path) = none := hy
  have hmove : ws.moveAmid none (temporary path) path = .ok gs := hv
  simp only [replaceAmid, hparents, hwrite, hsync, hmove]

/-- **A file that was replaced can be replaced again**, unless there is a mishap. -/
theorem replace_again {fs gs : Files} {path text : String} (h : fs.replace path text = (gs, none)) (again : String)
    (hm : gs.nextMishap? = none) : (gs.replace path again).2 = none := by
  obtain ⟨ks, ws, hparents, hw, hy, hv⟩ := replaceAmid_eq_none h
  obtain ⟨old, hpo, hoo, hdo, hws⟩ := write_eq_ok hw
  obtain ⟨old', new, e, hs, ht, he, ho, hd, rfl⟩ := move_eq_ok hv
  obtain ⟨loc, hpl, hgl⟩ := file_of_sync hw hy
  cases hpl.symm.trans hs
  cases hgl.symm.trans he
  have hkw : ks.Keeps ws := by
    rcases hws with ⟨-, rfl⟩ | rfl
    · exact ⟨rfl, fun _ hl => hl⟩
    · exact keeps_put hdo _
  cases (hkw.place hpo).symm.trans hpl
  have hne : old ≠ [] := named_place_ne_nil hpl
  unfold replace
  rw [hm]
  have hwg := (keeps_put_erase (by rw [hgl]; simp) hd (.file text.toUTF8)).withMishaps
    ((ws.erase old).put new (.file text.toUTF8)).mishaps.tail
  generalize hgs : ({ (ws.erase old).put new (.file text.toUTF8) with mishaps := _ } : Files) = gs at hwg ⊢
  -- the file is at its place, and its temporary one is gone unless they are the same
  have hgn : gs.get? new = some (.file text.toUTF8) := by rw [← hgs]; exact get?_put _ (named_place_ne_nil ht) _
  have hgo : gs.get? old = none ∨ gs.get? old = some (.file text.toUTF8) := by
    by_cases heq : old = new
    · exact .inr (heq ▸ hgn)
    · left
      rw [← hgs]
      exact (get?_put_of_ne _ heq _).trans (get?_erase ws hne)
  have hfree : gs.get? old ≠ some .directory ∧ gs.get? old ≠ some .terminal := by
    rcases hgo with h | h <;> rw [h] <;> simp
  have hold := hwg.place hpl
  have hk : gs.Keeps (gs.put old (.file again.toUTF8)) := keeps_put hfree.1 _
  have hfile : (gs.put old (.file again.toUTF8)).get? old = some (.file again.toUTF8) := get?_put gs hne _
  have hnew : (gs.put old (.file again.toUTF8)).get? new ≠ some .directory := by
    by_cases heq : new = old
    · rw [heq, hfile]; simp
    · rw [get?_put_of_ne gs heq, hgn]; simp
  exact congrArg Prod.snd (replaceAmid_of_steps
    (makeParents_again (hasParent_of_makeParentsAmid hparents)
      ⟨hwg.here.trans hkw.here, fun l hl => hwg.directory l (hkw.directory l hl)⟩)
    (write_of_named hold hoo hfree.1 hfree.2 again.toUTF8) (sync_of_file (hk.place hold) hoo hfile)
    (move_of_named (hk.place hold) (hk.place (hwg.place ht)) hfile ho hnew))

end Broadcast.Files
