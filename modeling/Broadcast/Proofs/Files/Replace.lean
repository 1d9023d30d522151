import Broadcast.Files.Tree
import Broadcast.Proofs.Text.Bytes

/-!
# Replaced files

A path is followed through directories, so it leads to the same place in any
tree that has these directories. Replacing a file touches no directory but the
missing ones on the way; a replaced file is found at its path and has exactly
the new content.
-/

namespace Broadcast.Files

/-- Every directory of one tree is one of the other, and one works in the same directory of both. -/
structure Keeps (fs gs : Files) : Prop where
  here : gs.here = fs.here
  directory : ∀ loc, fs.get? loc = some .directory → gs.get? loc = some .directory

theorem keeps_put {fs : Files} {loc : Location} (h : fs.get? loc ≠ some .directory) (e : Entry) :
    fs.Keeps (fs.put loc e) :=
  ⟨rfl, fun other ho => by
    have hne : other ≠ loc := fun he => h (he ▸ ho)
    rw [get?_put_of_ne fs hne e]
    exact ho⟩

theorem keeps_put_erase {fs : Files} {old new : Location} (ho : fs.get? old ≠ some .directory)
    (hn : fs.get? new ≠ some .directory) (e : Entry) : fs.Keeps ((fs.erase old).put new e) :=
  ⟨rfl, fun other hd => by
    have h₁ : other ≠ new := fun he => hn (he ▸ hd)
    have h₂ : other ≠ old := fun he => ho (he ▸ hd)
    rw [get?_put_of_ne _ h₁ e, get?_erase_of_ne fs h₂]
    exact hd⟩

theorem Keeps.withMishaps {fs gs : Files} (k : fs.Keeps gs) (ms : List (Option Mishap)) :
    fs.Keeps { gs with mishaps := ms } :=
  ⟨k.here, k.directory⟩

/-! ## Following a path -/

theorem directory_of_step {fs : Files} {loc : Location} {s : String} {p : Place} (h : fs.step loc s = .ok p) :
    fs.get? loc = some .directory := by
  unfold step at h
  split at h
  · assumption
  · cases h
  · cases h

theorem named_ne_nil {fs : Files} {loc l : Location} {s : String} (h : fs.step loc s = .ok (.named l)) : l ≠ [] := by
  unfold step at h
  rw [directory_of_step h] at h
  simp only at h
  split at h
  · cases h
  · split at h
    · cases h
    · split at h
      · cases h
      · cases h; exact List.append_ne_nil_of_right_ne_nil _ (List.cons_ne_nil _ _)

theorem Keeps.step {fs gs : Files} (k : fs.Keeps gs) {loc : Location} {s : String} {p : Place}
    (h : fs.step loc s = .ok p) : gs.step loc s = .ok p := by
  have hd := directory_of_step h
  have hg := k.directory loc hd
  unfold Files.step at h ⊢
  rw [hd] at h
  rw [hg]
  exact h

def walk (fs : Files) (ss : List String) (last : String) (loc : Location) : Except Fault Place := do
  fs.step (← ss.foldlM fs.enter loc) last

theorem walk_cons (fs : Files) (s : String) (ss : List String) (last : String) (loc : Location) :
    fs.walk (s :: ss) last loc = (fs.enter loc s).bind (fs.walk ss last) := by
  unfold walk
  rw [List.foldlM_cons]
  cases fs.enter loc s <;> rfl

theorem enter_eq_ok {fs : Files} {loc l : Location} {s : String} :
    fs.enter loc s = .ok l ↔ ∃ p, fs.step loc s = .ok p ∧ (fs.get? p.loc).isSome ∧ p.loc = l := by
  unfold enter
  constructor
  · intro h
    cases hp : fs.step loc s with
    | error e => rw [hp] at h; cases h
    | ok p =>
      rw [hp] at h
      simp only [bind, Except.bind] at h
      split at h
      · rename_i hs
        cases h; exact ⟨p, rfl, hs, rfl⟩
      · cases h
  · rintro ⟨p, hp, hs, rfl⟩
    rw [hp]
    exact if_pos hs

theorem directory_of_walk {fs : Files} {ss : List String} {last : String} {loc : Location} {p : Place}
    (h : fs.walk ss last loc = .ok p) : fs.get? loc = some .directory := by
  cases ss with
  | nil => exact directory_of_step h
  | cons s ss =>
    rw [walk_cons] at h
    cases he : fs.enter loc s with
    | error e => rw [he] at h; cases h
    | ok l =>
      obtain ⟨q, hq, -⟩ := enter_eq_ok.mp he
      exact directory_of_step hq

theorem Keeps.walk {fs gs : Files} (k : fs.Keeps gs) (ss : List String) {last : String} {p : Place} :
    ∀ {loc : Location}, fs.walk ss last loc = .ok p → gs.walk ss last loc = .ok p := by
  induction ss with
  | nil => intro loc h; exact k.step h
  | cons s ss ih =>
    intro loc h
    rw [walk_cons] at h ⊢
    cases he : fs.enter loc s with
    | error e => rw [he] at h; cases h
    | ok l =>
      rw [he] at h
      -- the walk goes on from `l`, so `l` is a directory and it is still there
      have hd : fs.get? l = some .directory := directory_of_walk h
      obtain ⟨q, hq, -, rfl⟩ := enter_eq_ok.mp he
      have hg : gs.enter loc s = .ok q.loc := enter_eq_ok.mpr ⟨q, k.step hq, by rw [k.directory _ hd]; rfl, rfl⟩
      rw [hg]
      exact ih h

theorem place_eq_ok {fs : Files} {path : String} {p : Place} :
    fs.place path = .ok p ↔ Path.check path = .ok () ∧
      (Path.steps path = [] ∧ p = .inside [] ∨
        ∃ last, (Path.steps path).getLast? = some last ∧
          fs.walk (Path.steps path).dropLast last (fs.start path) = .ok p) := by
  unfold place walk
  cases hc : Path.check path with
  | error e =>
    simp only [bind, Except.bind]
    constructor
    · intro h; cases h
    · intro h; cases h.1
  | ok u =>
    cases u
    simp only [bind, Except.bind]
    cases hl : (Path.steps path).getLast? with
    | none =>
      have hn : Path.steps path = [] := List.getLast?_eq_none_iff.mp hl
      simp only
      constructor
      · intro h; cases h; exact ⟨trivial, .inl ⟨hn, rfl⟩⟩
      · rintro ⟨-, ⟨-, rfl⟩ | ⟨last, hs, -⟩⟩
        · rfl
        · cases hs
    | some last =>
      simp only
      constructor
      · intro h; exact ⟨trivial, .inr ⟨last, rfl, h⟩⟩
      · rintro ⟨-, ⟨hn, -⟩ | ⟨last', hs, h⟩⟩
        · rw [hn] at hl; cases hl
        · cases hs; exact h

theorem named_place_ne_nil {fs : Files} {path : String} {loc : Location} (h : fs.place path = .ok (.named loc)) :
    loc ≠ [] := by
  obtain ⟨-, ⟨-, hn⟩ | ⟨last, -, hw⟩⟩ := place_eq_ok.mp h
  · cases hn
  · unfold walk at hw
    cases hf : (Path.steps path).dropLast.foldlM fs.enter (fs.start path) with
    | error e => rw [hf] at hw; cases hw
    | ok l => rw [hf] at hw; exact named_ne_nil hw

theorem Keeps.place {fs gs : Files} (k : fs.Keeps gs) {path : String} {p : Place} (h : fs.place path = .ok p) :
    gs.place path = .ok p := by
  obtain ⟨hc, ⟨hn, rfl⟩ | ⟨last, hl, hw⟩⟩ := place_eq_ok.mp h
  · exact place_eq_ok.mpr ⟨hc, .inl ⟨hn, rfl⟩⟩
  · have hs : gs.start path = fs.start path := by unfold start; rw [k.here]
    exact place_eq_ok.mpr ⟨hc, .inr ⟨last, hl, by rw [hs]; exact k.walk _ hw⟩⟩

theorem locate_of_named {fs : Files} {path : String} {loc : Location} (h : fs.place path = .ok (.named loc))
    (hs : (fs.get? loc).isSome) (ho : Path.isOpen path = false) : fs.locate path = .ok loc := by
  obtain ⟨hc, ⟨-, hn⟩ | ⟨last, hl, hw⟩⟩ := place_eq_ok.mp h
  · cases hn
  · have hsteps : Path.steps path = (Path.steps path).dropLast ++ [last] := by
      obtain ⟨ss, hss⟩ := List.getLast?_eq_some_iff.mp hl
      rw [hss, List.dropLast_concat]
    unfold walk at hw
    cases hf : (Path.steps path).dropLast.foldlM fs.enter (fs.start path) with
    | error e => rw [hf] at hw; cases hw
    | ok l =>
      rw [hf] at hw
      have hst : fs.step l last = .ok (.named loc) := hw
      have hen : fs.enter l last = .ok loc := enter_eq_ok.mpr ⟨_, hst, hs, rfl⟩
      have hall : (Path.steps path).foldlM fs.enter (fs.start path) = .ok loc := by
        rw [hsteps, List.foldlM_append, hf]
        simp only [bind, Except.bind, List.foldlM_cons, List.foldlM_nil, hen]
        rfl
      unfold locate
      rw [hc, hall]
      simp only [ho, Bool.false_and]
      rfl

/-! ## Replacing -/

theorem write_eq_ok {fs gs : Files} {path : String} {bytes : ByteArray} (h : fs.write path bytes = .ok gs) :
    ∃ loc, fs.place path = .ok (.named loc) ∧ Path.isOpen path = false ∧ fs.get? loc ≠ some .directory ∧
      (fs.get? loc = some .terminal ∧ gs = fs ∨ gs = fs.put loc (.file bytes)) := by
  unfold write at h
  cases hp : fs.place path with
  | error e => rw [hp] at h; cases h
  | ok p =>
    rw [hp] at h
    cases p with
    | inside l => cases h
    | named loc =>
      change (if Path.isOpen path = true then _ else _) = Except.ok gs at h
      cases ho : Path.isOpen path with
      | true => rw [ho] at h; cases h
      | false =>
        rw [ho] at h
        simp only [Bool.false_eq_true, ite_false] at h
        split at h
        · cases h
        · rename_i ht
          cases h; exact ⟨loc, rfl, rfl, by rw [ht]; simp, .inl ⟨ht, rfl⟩⟩
        · rename_i hd _
          cases h; exact ⟨loc, rfl, rfl, hd, .inr rfl⟩

theorem move_eq_ok {fs gs : Files} {source target : String} (h : fs.move source target = .ok gs) :
    ∃ old new e, fs.place source = .ok (.named old) ∧ fs.place target = .ok (.named new) ∧ fs.get? old = some e ∧
      Path.isOpen target = false ∧ fs.get? new ≠ some .directory ∧ gs = (fs.erase old).put new e := by
  unfold move at h
  cases hs : fs.place source with
  | error e => rw [hs] at h; cases h
  | ok p =>
    cases ht : fs.place target with
    | error e => rw [hs, ht] at h; cases h
    | ok q =>
      rw [hs, ht] at h
      cases p with
      | inside l => cases h
      | named old =>
        cases q with
        | inside l => cases h
        | named new =>
          cases he : fs.get? old with
          | none => simp only [bind, Except.bind, he] at h; cases h
          | some e =>
            simp only [bind, Except.bind, he] at h
            split at h
            · cases h
            · split at h
              · cases h
              · rename_i ho hd
                cases h
                exact ⟨old, new, e, rfl, rfl, he, by simpa using ho, hd, rfl⟩

theorem readText_of_file {fs : Files} {path text : String} {loc : Location} (hl : fs.locate path = .ok loc)
    (hg : fs.get? loc = some (.file text.toUTF8)) : fs.readText path = .ok text := by
  have hb : fs.readBytes path = .ok text.toUTF8 := by
    unfold readBytes
    simp only [hl, bind, Except.bind, hg]
  unfold readText
  simp only [hb, bind, Except.bind, fromUTF8?_toUTF8]

theorem writeAmid_eq_none {m? : Option Mishap} {ks ws : Files} {path : String} {bytes : ByteArray}
    (h : ks.writeAmid m? path bytes = (ws, none)) : ks.write path bytes = .ok ws := by
  unfold writeAmid at h
  split at h
  · cases h
  · rename_i written e
    cases hw : ks.write path (bytes.extract 0 written) with
    | error f => rw [hw] at h; cases h
    | ok vs =>
      rw [hw] at h
      simp only [Prod.mk.injEq] at h
      obtain ⟨rfl, hlt⟩ := h
      split at hlt
      · cases hlt
      · -- nothing was left out
        rename_i hle
        rwa [extract_of_size_le (Nat.le_of_not_lt hle)] at hw
  · cases hw : ks.write path bytes with
    | error f => rw [hw] at h; cases h
    | ok vs => rw [hw] at h; cases h; rfl

theorem syncAmid_eq_none {m? : Option Mishap} {ws : Files} {path : String} (h : ws.syncAmid m? path = none) :
    ws.sync path = none := by
  unfold syncAmid at h
  split at h
  · cases h
  · exact h

theorem moveAmid_eq_ok {m? : Option Mishap} {ws gs : Files} {source target : String}
    (h : ws.moveAmid m? source target = .ok gs) : ws.move source target = .ok gs := by
  unfold moveAmid at h
  split at h
  · cases h
  · exact h

theorem replaceAmid_eq_none {m? : Option Mishap} {fs gs : Files} {path text : String}
    (h : replaceAmid m? fs path text = (gs, none)) :
    ∃ ks ws : Files, fs.makeParentsAmid m? path = (ks, none) ∧ ks.write (temporary path) text.toUTF8 = .ok ws ∧
      ws.sync (temporary path) = none ∧ ws.move (temporary path) path = .ok gs := by
  unfold replaceAmid at h
  rcases hm : fs.makeParentsAmid m? path with ⟨ks, _ | e⟩
  · rcases hw : ks.writeAmid m? (temporary path) text.toUTF8 with ⟨ws, _ | e⟩
    · cases hy : ws.syncAmid m? (temporary path) with
      | some e => simp only [hm, hw, hy] at h; cases h
      | none =>
        cases hv : ws.moveAmid m? (temporary path) path with
        | error e => simp only [hm, hw, hy, hv] at h; cases h
        | ok vs =>
          simp only [hm, hw, hy, hv] at h
          cases h
          exact ⟨ks, ws, rfl, writeAmid_eq_none hw, syncAmid_eq_none hy, moveAmid_eq_ok hv⟩
    · simp only [hm, hw] at h; cases h
  · simp only [hm] at h; cases h

theorem file_of_sync {ks ws : Files} {path : String} {bytes : ByteArray} (hw : ks.write path bytes = .ok ws)
    (hy : ws.sync path = none) : ∃ loc, ws.place path = .ok (.named loc) ∧ ws.get? loc = some (.file bytes) := by
  obtain ⟨loc, hp, ho, hd, ⟨ht, rfl⟩ | rfl⟩ := write_eq_ok hw
  · -- a terminal would have been found
    have hl := locate_of_named hp (by rw [ht]; rfl) ho
    have hf : ws.find? path = some .terminal := by unfold find?; rw [hl]; exact ht
    unfold sync at hy
    rw [if_pos hf] at hy
    cases hy
  · exact ⟨loc, (keeps_put hd (.file bytes)).place hp, get?_put ks (named_place_ne_nil hp) _⟩

theorem file_of_replace {fs gs : Files} {path text : String} (h : fs.replace path text = (gs, none)) :
    ∃ loc, gs.place path = .ok (.named loc) ∧ Path.isOpen path = false ∧ gs.get? loc = some (.file text.toUTF8) := by
  obtain ⟨ks, ws, -, hw, hy, hv⟩ := replaceAmid_eq_none h
  obtain ⟨beside, hp, hg⟩ := file_of_sync hw hy
  obtain ⟨old, new, e, hs, ht, he, ho, hd, rfl⟩ := move_eq_ok hv
  cases hp.symm.trans hs
  cases hg.symm.trans he
  have hnew := (keeps_put_erase (by rw [hg]; simp) hd (.file text.toUTF8)).place ht
  exact ⟨new, hnew, ho, get?_put _ (named_place_ne_nil ht) _⟩

/-- **A replaced file has the new content.** -/
theorem readText_of_replace {fs gs : Files} {path text : String} (h : fs.replace path text = (gs, none)) :
    gs.exists? path = true ∧ gs.readText path = .ok text := by
  obtain ⟨loc, hp, ho, hg⟩ := file_of_replace h
  have hl := locate_of_named hp (by rw [hg]; rfl) ho
  refine ⟨?_, readText_of_file hl hg⟩
  unfold exists? find?
  rw [hl]
  simp only [hg, Option.isSome_some]

end Broadcast.Files
