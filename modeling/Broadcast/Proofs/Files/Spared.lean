import Broadcast.Proofs.Files.Beside

/-!
# What a replacement leaves as it was

A file is replaced in steps, and each of them can fail. Directories are made
only where nothing was, and until the last step only the temporary file is
touched. So a replacement that fails leaves the file as it was, and one that
succeeds touches nothing else and leaves no temporary file behind.
-/

namespace Broadcast.Files

/-- What is at a location, directories apart. -/
def contents (fs : Files) (loc : Location) : Option Entry :=
  match fs.get? loc with
  | some .directory => none
  | e => e

theorem contents_congr {fs gs : Files} {loc : Location} (h : gs.get? loc = fs.get? loc) :
    gs.contents loc = fs.contents loc := by
  unfold contents; rw [h]

theorem contents_put_of_ne (fs : Files) {loc other : Location} (h : other ≠ loc) (e : Entry) :
    (fs.put loc e).contents other = fs.contents other :=
  contents_congr (get?_put_of_ne fs h e)

theorem contents_erase_of_ne (fs : Files) {loc other : Location} (h : other ≠ loc) :
    (fs.erase loc).contents other = fs.contents other :=
  contents_congr (get?_erase_of_ne fs h)

/-! ## Directories on the way -/

/-- The second tree is the first with directories made where nothing was. -/
structure Made (fs gs : Files) : Prop where
  here : gs.here = fs.here
  mishaps : gs.mishaps = fs.mishaps
  get? : ∀ loc, gs.get? loc = fs.get? loc ∨ fs.get? loc = none ∧ gs.get? loc = some .directory

namespace Made

theorem refl (fs : Files) : fs.Made fs := ⟨rfl, rfl, fun _ => .inl rfl⟩

theorem trans {fs gs ks : Files} (h : fs.Made gs) (k : gs.Made ks) : fs.Made ks := by
  refine ⟨k.here.trans h.here, k.mishaps.trans h.mishaps, fun loc => ?_⟩
  rcases k.get? loc with hk | ⟨hn, hd⟩
  · rw [hk]; exact h.get? loc
  · refine .inr ⟨?_, hd⟩
    rcases h.get? loc with hh | ⟨hf, -⟩
    · exact hh.symm.trans hn
    · exact hf

theorem contents {fs gs : Files} (h : fs.Made gs) (loc : Location) : gs.contents loc = fs.contents loc := by
  rcases h.get? loc with he | ⟨hn, hd⟩
  · exact contents_congr he
  · unfold Files.contents
    rw [hn, hd]

theorem keeps {fs gs : Files} (h : fs.Made gs) : fs.Keeps gs := by
  refine ⟨h.here, fun loc hd => ?_⟩
  rcases h.get? loc with he | ⟨hn, -⟩
  · exact he.trans hd
  · rw [hn] at hd; cases hd

end Made

theorem made_makeDirectory {fs gs : Files} {path : String} (h : fs.makeDirectory path = .ok gs) : fs.Made gs := by
  obtain ⟨made, hp, hn, rfl⟩ := makeDirectory_eq_ok h
  refine ⟨rfl, rfl, fun loc => ?_⟩
  by_cases hl : loc = made
  · subst hl
    exact .inr ⟨hn, get?_put fs (named_place_ne_nil hp) _⟩
  · exact .inl (get?_put_of_ne fs hl _)

theorem made_ensureDirectory {fs gs : Files} {path : String} (h : fs.ensureDirectory path = .ok gs) : fs.Made gs := by
  unfold ensureDirectory at h
  cases hm : fs.makeDirectory path with
  | ok ks =>
    rw [hm] at h
    cases h
    exact made_makeDirectory hm
  | error e =>
    rw [hm] at h
    simp only at h
    split at h
    · cases h; exact .refl fs
    · cases h

theorem made_attempt {fs : Files} {path : String} {before : Files × Option Fault} (h : fs.Made before.1) :
    fs.Made (makeParts.attempt fs path before).1 := by
  unfold makeParts.attempt
  split
  · rename_i gs hg; exact made_ensureDirectory hg
  · split
    · exact h
    · split
      · rename_i gs hg; exact h.trans (made_ensureDirectory hg)
      · exact h
  · exact .refl fs

theorem made_makeParts (fs : Files) (absolute : Bool) (parts : List String) :
    fs.Made (fs.makeParts absolute parts).1 := by
  induction parts with
  | nil => exact .refl fs
  | cons last before ih => exact made_attempt ih

theorem made_makeParents (fs : Files) (path : String) : fs.Made (fs.makeParents path).1 := by
  unfold makeParents
  split
  · unfold makeDirectories
    split
    · exact .refl fs
    · exact made_attempt (made_makeParts fs _ _)
  · exact .refl fs

theorem made_makeParentsAmid (m? : Option Mishap) (fs : Files) (path : String) :
    fs.Made (fs.makeParentsAmid m? path).1 := by
  unfold makeParentsAmid
  split
  · rename_i made e
    have hm := made_makeParts fs (Path.isAbsolute path) ((Path.parts path).dropLast.take made).reverse
    split
    · rename_i h; rwa [h] at hm
    · rename_i h; rwa [h] at hm
  · exact made_makeParents fs path

theorem locate_of_missing {fs : Files} {path : String} {loc : Location} (h : fs.place path = .ok (.named loc))
    (hn : fs.get? loc = none) : ∃ e, fs.locate path = .error e := by
  obtain ⟨hc, hall⟩ := enterAll_of_named h
  unfold locate
  rw [hc]
  cases hw : (Path.steps path).foldlM fs.enter (fs.start path) with
  | error e => exact ⟨e, rfl⟩
  | ok l =>
    have hsome := ((hall l).mp hw).1
    rw [hn] at hsome
    cases hsome

theorem not_exists_of_missing {fs : Files} {path : String} {loc : Location} (h : fs.place path = .ok (.named loc))
    (hn : fs.get? loc = none) : fs.exists? path = false := by
  obtain ⟨e, he⟩ := locate_of_missing h hn
  unfold exists? find?
  rw [he]
  rfl

/-! ## The steps of a replacement -/

theorem writeAmid_cases {m? : Option Mishap} {ks ws : Files} {path : String} {bytes : ByteArray} {fault? : Option Fault}
    (h : ks.writeAmid m? path bytes = (ws, fault?)) :
    ws = ks ∨ ∃ loc written, ks.place path = .ok (.named loc) ∧ ks.get? loc ≠ some .directory ∧
      ws = ks.put loc (.file written) := by
  have hcases {vs : Files} {written : ByteArray} (hw : ks.write path written = .ok vs) :
      vs = ks ∨ ∃ loc written, ks.place path = .ok (.named loc) ∧ ks.get? loc ≠ some .directory ∧
        vs = ks.put loc (.file written) := by
    obtain ⟨loc, hp, -, hd, ⟨-, hvs⟩ | hvs⟩ := write_eq_ok hw
    · exact .inl hvs
    · exact .inr ⟨loc, written, hp, hd, hvs⟩
  unfold writeAmid at h
  split at h
  · cases h; exact .inl rfl
  · rename_i written e
    cases hw : ks.write path (bytes.extract 0 written) with
    | error f => rw [hw] at h; cases h; exact .inl rfl
    | ok vs => rw [hw] at h; cases h; exact hcases hw
  · cases hw : ks.write path bytes with
    | error f => rw [hw] at h; cases h; exact .inl rfl
    | ok vs => rw [hw] at h; cases h; exact hcases hw

/-- How a replacement ends once there are the directories `ks`: before anything is written, with a temporary file
that may be cut off anywhere, or well. -/
inductive Replacing (path text : String) (ks : Files) : Files → Option Fault → Prop
  | before {e : Fault} : Replacing path text ks ks (some e)
  | beside {loc : Location} {written : ByteArray} {e : Fault} : ks.place (temporary path) = .ok (.named loc) →
      ks.get? loc ≠ some .directory → Replacing path text ks (ks.put loc (.file written)) (some e)
  | moved {beside loc : Location} {ws : Files} : ks.place (temporary path) = .ok (.named beside) →
      ks.get? beside ≠ some .directory → ws = ks.put beside (.file text.toUTF8) → ws.place path = .ok (.named loc) →
      ws.get? loc ≠ some .directory →
      Replacing path text ks ((ws.erase beside).put loc (.file text.toUTF8)) none

theorem Replacing.of_writeAmid {m? : Option Mishap} {ks ws : Files} {path text : String} {fault? : Option Fault}
    {e : Fault}
    (h : ks.writeAmid m? (temporary path) text.toUTF8 = (ws, fault?)) : Replacing path text ks ws (some e) := by
  rcases writeAmid_cases h with rfl | ⟨loc, written, hp, hd, rfl⟩
  · exact .before
  · exact .beside hp hd

theorem Replacing.of_move {ks ws gs : Files} {path text : String} (hw : ks.write (temporary path) text.toUTF8 = .ok ws)
    (hy : ws.sync (temporary path) = none) (hv : ws.move (temporary path) path = .ok gs) :
    Replacing path text ks gs none := by
  obtain ⟨beside, hp, -, hd, hws⟩ := write_eq_ok hw
  obtain ⟨beside', hpb, hgb⟩ := file_of_sync hw hy
  have hput : ws = ks.put beside (.file text.toUTF8) := by
    rcases hws with ⟨ht, rfl⟩ | rfl
    · -- what was brought to the disk is no terminal
      cases hp.symm.trans hpb
      rw [ht] at hgb; cases hgb
    · rfl
  have hpw : ws.place (temporary path) = .ok (.named beside) := by
    rw [hput]; exact (keeps_put hd _).place hp
  cases hpw.symm.trans hpb
  obtain ⟨old, loc, entry, hs, ht, he, -, hdl, rfl⟩ := move_eq_ok hv
  cases hs.symm.trans hpw
  cases he.symm.trans hgb
  exact .moved hp hd hput ht hdl

theorem replacing_replace (fs : Files) (path text : String) :
    ∃ ks, ({ fs with mishaps := fs.mishaps.tail } : Files).Made ks ∧
      Replacing path text ks (fs.replace path text).1 (fs.replace path text).2 := by
  unfold replace
  generalize { fs with mishaps := fs.mishaps.tail } = fs', fs.nextMishap? = m?
  have hmade := made_makeParentsAmid m? fs' path
  unfold replaceAmid
  rcases hm : fs'.makeParentsAmid m? path with ⟨ks, _ | e⟩
  · rw [hm] at hmade
    refine ⟨ks, hmade, ?_⟩
    rcases hw : ks.writeAmid m? (temporary path) text.toUTF8 with ⟨ws, _ | e⟩
    · cases hy : ws.syncAmid m? (temporary path) with
      | some e => simp only [hw, hy]; exact .of_writeAmid hw
      | none =>
        cases hv : ws.moveAmid m? (temporary path) path with
        | error e => simp only [hw, hy, hv]; exact .of_writeAmid hw
        | ok gs =>
          simp only [hw, hy, hv]
          exact .of_move (writeAmid_eq_none hw) (syncAmid_eq_none hy) (moveAmid_eq_ok hv)
    · simp only [hw]; exact .of_writeAmid hw
  · rw [hm] at hmade
    exact ⟨ks, hmade, .before⟩

theorem mishaps_replace (fs : Files) (path text : String) : (fs.replace path text).1.mishaps = fs.mishaps.tail := by
  obtain ⟨ks, hm, hr⟩ := replacing_replace fs path text
  generalize (fs.replace path text).1 = gs, (fs.replace path text).2 = fault? at hr ⊢
  cases hr with
  | before => exact hm.mishaps
  | beside => exact hm.mishaps
  | moved _ _ hws => subst hws; exact hm.mishaps

theorem Keeps.trans {fs gs ks : Files} (h : fs.Keeps gs) (k : gs.Keeps ks) : fs.Keeps ks :=
  ⟨k.here.trans h.here, fun loc hl => k.directory loc (h.directory loc hl)⟩

theorem not_directory_put {fs : Files} {path : String} {loc : Location} (h : fs.place path = .ok (.named loc))
    (bytes : ByteArray) : (fs.put loc (.file bytes)).get? loc ≠ some .directory := by
  rw [get?_put fs (named_place_ne_nil h)]; simp

theorem keeps_replace (fs : Files) (path text : String) : fs.Keeps (fs.replace path text).1 := by
  obtain ⟨ks, hm, hr⟩ := replacing_replace fs path text
  have hk : fs.Keeps ks := ⟨hm.keeps.here, hm.keeps.directory⟩
  generalize (fs.replace path text).1 = gs, (fs.replace path text).2 = fault? at hr ⊢
  cases hr with
  | before => exact hk
  | beside hp hd => exact hk.trans (keeps_put hd _)
  | moved hp hd hws _ hdl =>
    subst hws
    exact (hk.trans (keeps_put hd _)).trans (keeps_put_erase (not_directory_put hp _) hdl _)

theorem contents_replace {fs : Files} {path text : String} {loc : Location}
    (ht : (fs.replace path text).1.place (temporary path) ≠ .ok (.named loc))
    (hp : (fs.replace path text).2 = none → (fs.replace path text).1.place path ≠ .ok (.named loc)) :
    (fs.replace path text).1.contents loc = fs.contents loc := by
  obtain ⟨ks, hm, hr⟩ := replacing_replace fs path text
  have hc : ks.contents loc = fs.contents loc := hm.contents loc
  generalize (fs.replace path text).1 = gs, (fs.replace path text).2 = fault? at hr ht hp ⊢
  cases hr with
  | before => exact hc
  | @beside beside written _ hb hd =>
    have hne : loc ≠ beside := by
      rintro rfl
      exact ht ((keeps_put hd _).place hb)
    rw [contents_put_of_ne ks hne, hc]
  | @moved beside new _ hb hd hws hn hdn =>
    subst hws
    have hk := keeps_put_erase (not_directory_put hb text.toUTF8) hdn (.file text.toUTF8)
    have hne : loc ≠ beside := by
      rintro rfl
      exact ht (hk.place ((keeps_put hd _).place hb))
    have hnew : loc ≠ new := by
      rintro rfl
      exact hp rfl (hk.place hn)
    rw [contents_put_of_ne _ hnew, contents_erase_of_ne _ hne, contents_put_of_ne ks hne, hc]

/-- **A replacement that fails leaves the file as it was.** -/
theorem contents_of_failed {fs : Files} {path text : String} (h : (fs.replace path text).2 ≠ none) {loc : Location}
    (hp : (fs.replace path text).1.place path = .ok (.named loc)) :
    (fs.replace path text).1.contents loc = fs.contents loc :=
  contents_replace (fun ht => temporary_ne hp ht rfl) fun hn => absurd hn h

/-- **A replacement that succeeds leaves no temporary file behind.** -/
theorem not_exists_temporary {fs gs : Files} {path text : String} (h : fs.replace path text = (gs, none)) :
    gs.exists? (temporary path) = false := by
  obtain ⟨ks, -, hr⟩ := replacing_replace fs path text
  rw [h] at hr
  cases hr with
  | @moved beside loc ws hb hd hws hl hdl =>
    subst hws
    have hbw := (keeps_put hd (.file text.toUTF8)).place hb
    have hbg := (keeps_put_erase (not_directory_put hb text.toUTF8) hdl (.file text.toUTF8)).place hbw
    -- the entry went to another location
    have hgone : (((ks.put beside (.file text.toUTF8)).erase beside).put loc (.file text.toUTF8)).get? beside =
        none := by
      rw [get?_put_of_ne _ (temporary_ne hl hbw)]
      exact get?_erase _ (named_place_ne_nil hb)
    exact not_exists_of_missing hbg hgone

/-! ## What is read -/

theorem readBytes_of_named {fs : Files} {path : String} {loc : Location} (h : fs.place path = .ok (.named loc)) :
    (fs.readBytes path).toOption =
      if Path.isOpen path then none
      else match fs.contents loc with
        | some (.file bytes) => some bytes
        | some .terminal => some .empty
        | _ => none := by
  obtain ⟨hc, hall⟩ := enterAll_of_named h
  unfold readBytes
  cases hs : fs.get? loc with
  | none =>
    obtain ⟨e, he⟩ := locate_of_missing h hs
    have hn : fs.contents loc = none := by unfold contents; rw [hs]
    rw [he, hn]
    split <;> rfl
  | some entry =>
    have hw : (Path.steps path).foldlM fs.enter (fs.start path) = .ok loc := (hall loc).mpr ⟨by rw [hs]; rfl, rfl⟩
    cases ho : Path.isOpen path with
    | false =>
      rw [locate_of_named h (by rw [hs]; rfl) ho]
      unfold contents
      simp only [bind, Except.bind, hs]
      cases entry <;> rfl
    | true =>
      unfold locate
      rw [hc, hw]
      cases entry <;> simp [bind, Except.bind, ho, hs, Except.toOption]

theorem readBytes_of_failed {fs : Files} {path text : String} (h : (fs.replace path text).2 ≠ none) {loc : Location}
    (hp : fs.place path = .ok (.named loc)) :
    ((fs.replace path text).1.readBytes path).toOption = (fs.readBytes path).toOption := by
  have hg := (keeps_replace fs path text).place hp
  rw [readBytes_of_named hg, readBytes_of_named hp, contents_of_failed h hg]

def Apart (fs : Files) (path other : String) : Prop :=
  ∃ loc file beside, fs.place other = .ok (.named loc) ∧ fs.place path = .ok (.named file) ∧
    fs.place (temporary path) = .ok (.named beside) ∧ loc ≠ file ∧ loc ≠ beside

theorem toOption_readText (fs : Files) (path : String) :
    (fs.readText path).toOption = (fs.readBytes path).toOption.bind String.fromUTF8? := by
  unfold readText
  cases fs.readBytes path with
  | error f => rfl
  | ok bytes => cases hb : String.fromUTF8? bytes <;> simp [bind, Except.bind, Except.toOption, hb]

theorem Apart.replace {fs : Files} {path other : String} (h : fs.Apart path other) (text : String) :
    (fs.replace path text).1.Apart path other ∧
      ((fs.replace path text).1.readText other).toOption = (fs.readText other).toOption := by
  obtain ⟨loc, file, beside, ho, hf, hb, hlf, hlb⟩ := h
  have k := keeps_replace fs path text
  refine ⟨⟨loc, file, beside, k.place ho, k.place hf, k.place hb, hlf, hlb⟩, ?_⟩
  have hc : (fs.replace path text).1.contents loc = fs.contents loc := by
    refine contents_replace (fun ht => ?_) (fun _ hp => ?_)
    · cases (k.place hb).symm.trans ht
      exact hlb rfl
    · cases (k.place hf).symm.trans hp
      exact hlf rfl
  rw [toOption_readText, toOption_readText, readBytes_of_named ho, readBytes_of_named (k.place ho), hc]

end Broadcast.Files
