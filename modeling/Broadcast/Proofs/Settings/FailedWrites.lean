import Broadcast.Proofs.Files.Spared
import Broadcast.Proofs.Settings.Loading

/-!
# Writes that fail lose nothing

Loading, saving and updating write the file at most once, and only by replacing
it. So whatever fails, the file is as it was; when nothing fails, it has the new
text, and in no case is any other file touched but the temporary one.
-/

namespace Broadcast.Store

inductive Operation where
  | load
  | save
  | update (x : Section)
  deriving DecidableEq, Repr

def perform (s : Store) (fs : Files) : Operation → Result
  | .load => s.load fs
  | .save => s.save fs
  | .update x => s.update x fs

/-- The whole new text of the file, if an operation gets so far as to write it. -/
def newText? (s : Store) (fs : Files) : Operation → Option String
  | .load => if s.writesOnLoad fs then some (s.load fs).store.settings.document.text else none
  | .save => some s.settings.document.text
  | .update x =>
    match s.current fs with
    | .ok d => some (d.setTable x.name (s.settings.pairs x)).text
    | .error _ => none

theorem replaces_saveNoting (s : Store) (fs : Files) (before after : List Record) :
    Replaces s.path fs (s.saveNoting fs before after).store.settings.document.text (s.saveNoting fs before after) := by
  obtain ⟨hs, hf, he⟩ := s.saveNoting_eq fs before after
  obtain ⟨hstore, hfiles, herror⟩ := s.replaces_save fs
  rw [hs, hstore]
  exact ⟨hf.trans hfiles, he.trans herror⟩

theorem replaces_update {s : Store} {fs : Files} {d : Toml.Document} (x : Section) (h : s.current fs = .ok d) :
    Replaces s.path fs (d.setTable x.name (s.settings.pairs x)).text (s.update x fs) := by
  obtain ⟨he, hf⟩ := update_of_current x h
  simp only [write_eq] at he hf
  exact ⟨hf, he⟩

theorem load_cases (s : Store) (fs : Files) :
    s.writesOnLoad fs = false ∧ (s.load fs).files = fs ∨
      s.writesOnLoad fs = true ∧ Replaces s.path fs (s.load fs).store.settings.document.text (s.load fs) := by
  have hloads := s.loads_load fs
  generalize s.writesOnLoad fs = writes, s.load fs = r at hloads ⊢
  cases hloads with
  | unreadable => exact .inl ⟨rfl, rfl⟩
  | refused => exact .inl ⟨rfl, rfl⟩
  | complete => exact .inl ⟨rfl, rfl⟩
  | @incomplete text d new => exact .inr ⟨rfl, replaces_saveNoting ⟨s.path, new⟩ fs _ _⟩
  | absent => exact .inr ⟨rfl, replaces_saveNoting ⟨s.path, {}⟩ fs _ _⟩

/-- An operation leaves all files alone, or it replaces the file by its new text. -/
theorem perform_cases (s : Store) (fs : Files) (o : Operation) :
    s.newText? fs o = none ∧ (s.perform fs o).files = fs ∨
      ∃ text, s.newText? fs o = some text ∧ Replaces s.path fs text (s.perform fs o) := by
  cases o with
  | save => exact .inr ⟨s.settings.document.text, rfl, (s.replaces_save fs).2⟩
  | load =>
    have hload : s.newText? fs .load =
        if s.writesOnLoad fs then some (s.load fs).store.settings.document.text else none := rfl
    have hperform : s.perform fs .load = s.load fs := rfl
    rw [hload, hperform]
    rcases s.load_cases fs with ⟨hw, hf⟩ | ⟨hw, hr⟩
    · rw [hw]; exact .inl ⟨rfl, hf⟩
    · rw [hw]; exact .inr ⟨_, rfl, hr⟩
  | update x =>
    have hupdate : s.newText? fs (.update x) =
        match s.current fs with
        | .ok d => some (d.setTable x.name (s.settings.pairs x)).text
        | .error _ => none := rfl
    have hperform : s.perform fs (.update x) = s.update x fs := rfl
    rw [hupdate, hperform]
    cases hc : s.current fs with
    | error e => left; simp only [update, hc, and_self]
    | ok d => exact .inr ⟨_, rfl, replaces_update x hc⟩

/-- **Nothing is lost**, whatever goes wrong on the way. When an operation fails, the file has the content it
had, or is missing as it was. When it succeeds and writes, the file has the whole new text and there is no
temporary file. Nothing else changes but that directories are made, and the temporary file never stands in
the place of the file. -/
theorem perform_loses_nothing (s : Store) (fs : Files) (o : Operation) :
    ((s.perform fs o).error? ≠ none →
      (∀ loc, (s.perform fs o).files.place s.path = .ok (.named loc) →
        (s.perform fs o).files.contents loc = fs.contents loc) ∧
      ∀ loc, fs.place s.path = .ok (.named loc) →
        ((s.perform fs o).files.readBytes s.path).toOption = (fs.readBytes s.path).toOption) ∧
    ((s.perform fs o).error? = none →
      s.newText? fs o = none ∧ (s.perform fs o).files = fs ∨
      ∃ text, s.newText? fs o = some text ∧ (s.perform fs o).files.readText s.path = .ok text ∧
        (s.perform fs o).files.exists? (Files.temporary s.path) = false) ∧
    (fs.Keeps (s.perform fs o).files ∧
      ∀ loc, (s.perform fs o).files.place s.path ≠ .ok (.named loc) →
        (s.perform fs o).files.place (Files.temporary s.path) ≠ .ok (.named loc) →
        (s.perform fs o).files.contents loc = fs.contents loc) ∧
    ∀ bytes gs, fs.write s.path bytes = .ok gs → Files.temporary s.path ≠ s.path ∧
      ∀ loc, fs.place (Files.temporary s.path) = .ok (.named loc) → fs.place s.path ≠ .ok (.named loc) := by
  have hbeside : ∀ bytes gs, fs.write s.path bytes = .ok gs → Files.temporary s.path ≠ s.path ∧
      ∀ loc, fs.place (Files.temporary s.path) = .ok (.named loc) → fs.place s.path ≠ .ok (.named loc) := by
    intro bytes gs hw
    obtain ⟨loc, hp, -⟩ := Files.write_eq_ok hw
    refine ⟨fun he => ?_, fun beside hb hpb => Files.temporary_ne hpb hb rfl⟩
    exact Files.temporary_ne hp ((congrArg fs.place he).trans hp) rfl
  rcases s.perform_cases fs o with ⟨hn, hf⟩ | ⟨text, ht, hf, he⟩
  · rw [hf]
    refine ⟨fun _ => ⟨fun _ _ => rfl, fun _ _ => rfl⟩, fun _ => .inl ⟨hn, rfl⟩, ⟨⟨rfl, fun _ h => h⟩, fun _ _ _ => rfl⟩,
      hbeside⟩
  · rw [hf, he]
    refine ⟨fun h => ?_, fun h => .inr ⟨text, ht, ?_⟩, ⟨Files.keeps_replace fs s.path text, fun loc hp hb => ?_⟩,
      hbeside⟩
    · have hfault : (fs.replace s.path text).2 ≠ none := fun hn => h (by rw [hn]; rfl)
      exact ⟨fun loc => Files.contents_of_failed hfault, fun loc => Files.readBytes_of_failed hfault⟩
    · rw [Option.map_eq_none_iff] at h
      have hr : fs.replace s.path text = ((fs.replace s.path text).1, none) := Prod.ext rfl h
      exact ⟨(Files.readText_of_replace hr).2, Files.not_exists_temporary hr⟩
    · exact Files.contents_replace hb fun _ => hp

def fullDisk : Files where
  entries := [(["work"], .directory), (["work", "bct.toml"], .file "a = 1\n".toUTF8)]
  here := ["work"]
  mishaps := [some (.write 3 (.system 28))]

/-- The file stays when its new text does not fit, and only the first three bytes are left beside it. -/
theorem perform_loses_nothing_full_disk :
    (perform ⟨"bct.toml", {}⟩ fullDisk (.update .paths)).error? = some (.access (.system 28)) ∧
    ((perform ⟨"bct.toml", {}⟩ fullDisk (.update .paths)).files.readText "bct.toml.tmp").toOption = some "a =" ∧
    ((perform ⟨"bct.toml", {}⟩ fullDisk (.update .paths)).files.readBytes "bct.toml").toOption =
      some "a = 1\n".toUTF8 := by
  have hfail : (perform ⟨"bct.toml", {}⟩ fullDisk (.update .paths)).error? = some (.access (.system 28)) := by
    decide +kernel
  refine ⟨hfail, by decide +kernel, ?_⟩
  exact ((perform_loses_nothing ⟨"bct.toml", {}⟩ fullDisk (.update .paths)).1 (hfail ▸ Option.some_ne_none _)).2
    ["work", "bct.toml"] rfl

end Broadcast.Store
