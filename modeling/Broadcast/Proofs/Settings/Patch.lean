import Broadcast.Proofs.Toml.Respelling
import Broadcast.Proofs.Settings.Sharing

/-!
# A section written anew

An update exchanges the value under the key of a section for a table. The key keeps
the text before it, which a value may have and a header may not: a comment, or an
empty line. With such text the file is no document any more; without it the file
has the new table, and every other key has what it had.
-/

namespace Broadcast

open Toml

namespace Toml

/-- Whether a comment or a line end stands before a top-level key, as part of it. -/
def Document.hasLead (name : String) (d : Document) : Bool :=
  d.entries.any fun e => e.1.name == name && !e.1.margin.before.toList.all isBlank

theorem entryValues_only (chosen : String → Bool) (es : Entries) :
    entryValues (Entries.only chosen es) = (entryValues es).filter fun e => chosen e.1 := by
  rw [entryValues_eq_map, entryValues_eq_map, Entries.only, List.filter_map]
  rfl

theorem values_filter (chosen : String → Bool) (d : Document) :
    (d.values.filter fun e => chosen e.1) = entryValues (Entries.only chosen d.entries) :=
  (entryValues_only chosen d.entries).symm

theorem Document.hasLead_respelled (name : String) (d : Document) : d.respelled.hasLead name = d.hasLead name := by
  rw [hasLead, hasLead, respelled, entriesRespelled_eq, List.any_map]
  rfl

/-- **The document that a new table is in is read again** just when no text stands before its key. Other keys
have what their text spells. -/
theorem Document.read?_setTable_respelled {text name : String} {d : Document} {qs : List (String × Scalar)}
    (hread : Document.read? text = some d) (hstrict : Document.isStrict text = true) (hname : IsBareName name)
    (hbare : ∀ q ∈ qs, IsBareName q.1) (hplain : ∀ q ∈ qs, q.2.IsPlain) (hdistinct : (qs.map (·.1)).Nodup) :
    (d.hasLead name = false → ∃ d', Document.read? (d.setTable name qs).text = some d' ∧
        (d'.values.filter fun e => e.1 == name) = [(name, .table (Sheet.pairsValue qs))] ∧
        (d'.values.filter fun e => e.1 != name) = d.respelled.values.filter fun e => e.1 != name) ∧
      (d.hasLead name = true → Document.read? (d.setTable name qs).text = none) := by
  obtain ⟨ps, es, ss, ho⟩ := Document.origin_of_read hread hstrict
  obtain ⟨hclean, hlead⟩ := ho.respelled.read_setTable (ho.spelled _) hname hbare hplain hdistinct
  rw [← setTable_respelled, text_respelled] at hclean hlead
  rw [← hasLead_respelled]
  refine ⟨fun h => ?_, fun h => hlead ?_⟩
  · rw [hasLead, List.any_eq_false] at h
    obtain ⟨d', k, form, hd', hcores, hnew, hk⟩ := hclean fun e he hn => by
      have hall := h e he
      simp only [hn, beq_self_eq_true, Bool.true_and, Bool.not_eq_true', Bool.not_eq_false] at hall
      exact List.all_eq_true.mp hall
    refine ⟨d', hd', ?_, ?_⟩
    · have hchosen : (fun n => !(n != name)) = fun n => n == name := funext fun n => Bool.not_not _
      rw [hchosen] at hnew
      rw [values_filter (fun n => n == name), hnew, entryValues, entryValues, Node.value,
        Sheet.entryValues_newEntries, hk]
    · rw [values_filter (fun n => n != name), values_filter (fun n => n != name), ← entryValues_cores, hcores,
        entryValues_cores]
  · rw [hasLead, List.any_eq_true] at h
    obtain ⟨e, he, hlead⟩ := h
    rw [Bool.and_eq_true, beq_iff_eq, Bool.not_eq_true'] at hlead
    exact ⟨e, he, hlead.1, fun hall => Bool.eq_false_iff.mp hlead.2 (List.all_eq_true.mpr hall)⟩

theorem Document.read?_setTable {text name : String} {d : Document} {qs : List (String × Scalar)}
    (hread : Document.read? text = some d) (hstrict : Document.isStrict text = true)
    (hspelled : ∀ e ∈ d.entries, e.1.name ≠ name → e.2.misspells = false) (hname : IsBareName name)
    (hbare : ∀ q ∈ qs, IsBareName q.1) (hplain : ∀ q ∈ qs, q.2.IsPlain) (hdistinct : (qs.map (·.1)).Nodup) :
    (d.hasLead name = false → ∃ d', Document.read? (d.setTable name qs).text = some d' ∧
        (d'.values.filter fun e => e.1 == name) = [(name, .table (Sheet.pairsValue qs))] ∧
        (d'.values.filter fun e => e.1 != name) = d.values.filter fun e => e.1 != name) ∧
      (d.hasLead name = true → Document.read? (d.setTable name qs).text = none) := by
  have hothers : entriesMisspell (Entries.only (fun n => n != name) d.entries) = false := by
    refine entriesMisspell_eq_false.mpr fun e he => ?_
    obtain ⟨hmem, hne⟩ := List.mem_filter.mp he
    exact hspelled e hmem (bne_iff_ne.mp hne)
  have hvalues : (d.respelled.values.filter fun e => e.1 != name) = d.values.filter fun e => e.1 != name := by
    rw [values_filter (fun n => n != name), values_filter (fun n => n != name), respelled, only_respelled,
      entriesRespelled_of_spelled hothers]
  have h := Document.read?_setTable_respelled hread hstrict hname hbare hplain hdistinct
  rw [hvalues] at h
  exact h

end Toml

namespace Store

/-- **An update changes its section and nothing else**, or makes the file unreadable: that it does just when a
comment or a line end stands before the key of the section. Strings of other keys must be spelled by the text that
is kept of them, which has lost its carriage returns, and no dotted key may lead into a table that only headers of
tables in it have made: such a table gets a header of its own, and the tables around it may come in another order. -/
theorem update_patches {s : Store} {x : Section} {fs : Files} {text : String} {d : Document}
    (hexists : fs.exists? s.path = true) (htext : fs.readText s.path = .ok text) (hread : Document.read? text = some d)
    (hstrict : Document.isStrict text = true) (hspelled : ∀ e ∈ d.entries, e.1.name ≠ x.name → e.2.misspells = false)
    (hok : (s.update x fs).error? = none) :
    ∃ written, (s.update x fs).files.readText s.path = .ok written ∧
      (d.hasLead x.name = false → ∃ d', Document.read? written = some d' ∧
        (d'.values.filter fun e => e.1 == x.name) = [(x.name, .table (Sheet.pairsValue (s.settings.pairs x)))] ∧
        (d'.values.filter fun e => e.1 != x.name) = d.values.filter fun e => e.1 != x.name) ∧
      (d.hasLead x.name = true → Document.read? written = none) := by
  obtain ⟨he, hf⟩ := update_of_current x (current_of_read hexists htext hread)
  rw [he] at hok
  have hpart := s.settings.wellFormed_newPart x
  refine ⟨(d.setTable x.name (s.settings.pairs x)).text, ?_, ?_⟩
  · rw [hf]
    exact (readText_of_write hok).2
  · exact Document.read?_setTable hread hstrict hspelled hpart.name hpart.keys hpart.plain hpart.distinct

/-- A section that there are only tables below so far, among dotted keys, comments and an array of tables. -/
theorem update_patches_implied :
    ∃ written d', (Store.update ⟨"b.toml", {}⟩ .device
        (Files.empty.replace "b.toml" "a.b = [1] # c\n\n[device.x]\ny = 2\n[[z]]\n").1).files.readText "b.toml" =
          .ok written ∧
      Document.read? written = some d' ∧
      (d'.values.filter fun e => e.1 == "device") =
        [("device", .table [("baud_rate", .scalar (.integer 115200)),
          ("connect_on_startup", .scalar (.boolean true))])] := by
  have hwrite : (Files.empty.replace "b.toml" "a.b = [1] # c\n\n[device.x]\ny = 2\n[[z]]\n").2 = none := by
    decide +kernel
  obtain ⟨hexists, htext⟩ := Files.readText_of_replace (Prod.ext rfl hwrite)
  have hread : (Document.read? "a.b = [1] # c\n\n[device.x]\ny = 2\n[[z]]\n").isSome = true := by decide +kernel
  have hclean :
      ((Document.read? "a.b = [1] # c\n\n[device.x]\ny = 2\n[[z]]\n").get hread).hasLead "device" = false := by
    decide +kernel +revert
  obtain ⟨written, hwritten, hpatched, -⟩ := update_patches (s := ⟨"b.toml", {}⟩) (x := .device) hexists htext
    (Option.some_get hread).symm (by decide +kernel) (by decide +kernel +revert) (by decide +kernel)
  obtain ⟨d', hd', hvalues, -⟩ := hpatched hclean
  exact ⟨written, d', hwritten, hd', hvalues⟩

/-- The comment before the key of a section gets between the brackets of its header. -/
theorem update_unreadable :
    (Document.read? "# c\ndevice = 1\n").isSome = true ∧
    ((Files.empty.replace "b.toml" "# c\ndevice = 1\n").1.readText "b.toml").toOption = some "# c\ndevice = 1\n" ∧
    (Store.update ⟨"b.toml", {}⟩ .device (Files.empty.replace "b.toml" "# c\ndevice = 1\n").1).error? = none ∧
    ((Store.update ⟨"b.toml", {}⟩ .device (Files.empty.replace "b.toml" "# c\ndevice = 1\n").1).files.readText
      "b.toml").toOption = some "[# c\ndevice ]\nbaud_rate = 115200\nconnect_on_startup = true\n" ∧
    (Document.read? "[# c\ndevice ]\nbaud_rate = 115200\nconnect_on_startup = true\n").isSome = false := by
  decide +kernel

/-- A string of another key loses the carriage return that its text has lost. -/
example :
    ((Document.read? "a = '''x\r\ny'''\n").bind fun d => (d.values.head?.bind fun e => e.2.text?)) = some "x\r\ny" ∧
    ((Document.read? "a = '''x\r\ny'''\n").bind fun d =>
      (Document.read? (d.setTable "device" []).text).bind fun d => d.values.head?.bind fun e => e.2.text?) =
        some "x\ny" := by
  decide +kernel

end Store

end Broadcast
