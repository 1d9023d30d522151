import Broadcast.Proofs.Session.Restart
import Broadcast.Startup

/-!
# How the program starts

Once there is a log file, only a device that is wanted and missing keeps the window
from opening. The settings decide whether it is wanted; which settings these are
depends on how loading them went, but a load that failed ends nothing, nor does a
header that cannot be read. The machine is asked for its ports only if a device is
wanted, and for a port only if it has no other.
-/

namespace Broadcast

namespace Machine

/-- Why there is no device: the ports cannot be listed, there are none, or the only one cannot be opened. -/
inductive Lacks (m : Machine) (baud : UInt32) : DeviceError → Prop
  | listing {cause : String} : m.ports = .error cause → Lacks m baud (.listing cause)
  | noPorts : m.ports = .ok [] → Lacks m baud .noPorts
  | opening {port cause : String} : m.ports = .ok [port] → m.opens port baud = .error cause →
      Lacks m baud (.opening port cause)

def AnswersAs (m n : Machine) : Request → Prop
  | .ports => m.ports = n.ports
  | .port name baud => m.opens name baud = n.opens name baud

theorem connect_congr {m n : Machine} {baud : UInt32} (h : ∀ r ∈ (m.connect baud).requests, n.AnswersAs m r) :
    n.connect baud = m.connect baud := by
  unfold connect at h ⊢
  cases hp : m.ports with
  | error cause =>
    rw [hp] at h
    have hports : n.ports = m.ports := h .ports List.mem_cons_self
    rw [hports, hp]
  | ok ports =>
    simp only [hp] at h
    have hports : n.ports = m.ports := by
      refine h .ports ?_
      split
      · exact List.mem_cons_self
      · split <;> exact List.mem_cons_self
      · exact List.mem_cons_self
    simp only [hports, hp]
    split
    · rfl
    · rename_i port
      have hopens : n.opens port baud = m.opens port baud := by
        refine h (.port port baud) ?_
        simp only
        split <;> exact List.mem_cons_of_mem _ List.mem_cons_self
      rw [hopens]
    · rfl

end Machine

namespace Startup

/-! ## The device -/

/-- How looking for the device can end, and what the machine was asked for. -/
inductive Connects (d : DeviceSettings) (m : Machine) : Except DeviceError (Option Channel) → List Request → Prop
  | disabled : d.connect = false → Connects d m (.ok none) []
  | unlisted {cause : String} : d.connect = true → m.ports = .error cause →
      Connects d m (.error (.listing cause)) [.ports]
  | noPorts : d.connect = true → m.ports = .ok [] → Connects d m (.error .noPorts) [.ports]
  | unopened {port cause : String} : d.connect = true → m.ports = .ok [port] → m.opens port d.baud = .error cause →
      Connects d m (.error (.opening port cause)) [.ports, .port port d.baud]
  | opened {port : String} {writer : Writer} : d.connect = true → m.ports = .ok [port] →
      m.opens port d.baud = .ok writer → Connects d m (.ok (some ⟨port, writer⟩)) [.ports, .port port d.baud]
  | several {first second : String} {rest : List String} : d.connect = true →
      m.ports = .ok (first :: second :: rest) → Connects d m (.ok none) [.ports]

theorem connect_of_wanted {d : DeviceSettings} (m : Machine) (h : d.connect = true) :
    (connect d m).outcome = (m.connect d.baud).outcome ∧ (connect d m).requests = (m.connect d.baud).requests := by
  unfold connect
  simp only [h, ite_true]
  split
  · rename_i e he
    exact ⟨rfl, rfl⟩
  · exact ⟨rfl, rfl⟩

theorem connects_connect (d : DeviceSettings) (m : Machine) :
    Connects d m (connect d m).outcome (connect d m).requests := by
  cases hd : d.connect with
  | false =>
    simp only [connect, hd, Bool.false_eq_true, ite_false]
    exact .disabled hd
  | true =>
    obtain ⟨ho, hr⟩ := connect_of_wanted m hd
    rw [ho, hr]
    unfold Machine.connect
    cases hp : m.ports with
    | error cause => exact .unlisted hd hp
    | ok ports =>
      cases ports with
      | nil => exact .noPorts hd hp
      | cons port rest =>
        cases rest with
        | cons second rest => exact .several hd hp
        | nil =>
          cases hw : m.opens port d.baud with
          | error cause => simp only [hw]; exact .unopened hd hp hw
          | ok writer => simp only [hw]; exact .opened hd hp hw

theorem outcome_eq_error_iff {d : DeviceSettings} {m : Machine} {e : DeviceError} :
    (connect d m).outcome = .error e ↔ d.connect = true ∧ m.Lacks d.baud e := by
  constructor
  · intro he
    have hc := connects_connect d m
    rw [he] at hc
    generalize (connect d m).requests = requests at hc
    cases hc with
    | unlisted hd hp => exact ⟨hd, .listing hp⟩
    | noPorts hd hp => exact ⟨hd, .noPorts hp⟩
    | unopened hd hp hw => exact ⟨hd, .opening hp hw⟩
  · rintro ⟨hd, hl⟩
    rw [(connect_of_wanted m hd).1]
    unfold Machine.connect
    cases hl with
    | listing hp => simp only [hp]
    | noPorts hp => simp only [hp]
    | opening hp hw => simp only [hp, hw]

theorem eq_some_iff_of_outcome {d : DeviceSettings} {m : Machine} {channel : Option Channel}
    (h : (connect d m).outcome = .ok channel) (c : Channel) :
    channel = some c ↔ d.connect = true ∧ m.ports = .ok [c.port] ∧ m.opens c.port d.baud = .ok c.writer := by
  have hc := connects_connect d m
  rw [h] at hc
  generalize (connect d m).requests = requests at hc
  cases hc with
  | disabled hd => simp [hd]
  | opened hd hp hw =>
    constructor
    · rintro ⟨⟩
      exact ⟨hd, hp, hw⟩
    · rintro ⟨-, hp', hw'⟩
      obtain ⟨port, writer⟩ := c
      rw [hp] at hp'
      obtain rfl : _ = port := by simpa using hp'
      rw [hw] at hw'
      cases hw'
      rfl
  | several hd hp => simp [hp]

theorem connect_congr {d : DeviceSettings} {m n : Machine} (h : ∀ r ∈ (connect d m).requests, n.AnswersAs m r) :
    connect d n = connect d m := by
  cases hd : d.connect with
  | false => simp only [connect, hd, Bool.false_eq_true, ite_false]
  | true =>
    rw [(connect_of_wanted m hd).2] at h
    simp only [connect, hd, ite_true, Machine.connect_congr h]

theorem requests_of_unwanted {d : DeviceSettings} (m : Machine) (h : d.connect = false) :
    (connect d m).requests = [] := by
  simp only [connect, h, Bool.false_eq_true, ite_false]

theorem requests_of_wanted {d : DeviceSettings} (m : Machine) (h : d.connect = true) :
    (∃ port, m.ports = .ok [port] ∧ (connect d m).requests = [.ports, .port port d.baud]) ∨
      (∀ port, m.ports ≠ .ok [port]) ∧ (connect d m).requests = [.ports] := by
  have hc := connects_connect d m
  generalize (connect d m).outcome = outcome, (connect d m).requests = requests at hc ⊢
  cases hc with
  | disabled hd => rw [h] at hd; cases hd
  | unlisted _ hp => exact .inr ⟨fun _ hn => (by rw [hp] at hn; cases hn), rfl⟩
  | noPorts _ hp => exact .inr ⟨fun _ hn => (by rw [hp] at hn; cases hn), rfl⟩
  | unopened _ hp _ => exact .inl ⟨_, hp, rfl⟩
  | opened _ hp _ => exact .inl ⟨_, hp, rfl⟩
  | several _ hp => exact .inr ⟨fun _ hn => (by rw [hp] at hn; cases hn), rfl⟩

/-! ## With a log file -/

def settings (around : Surroundings) : Settings :=
  (Store.load ⟨Settings.standardPath, {}⟩ around.files).store.settings

def prepared (around : Surroundings) : Files :=
  let loaded := Store.load ⟨Settings.standardPath, {}⟩ around.files
  (loaded.store.ensureLogs loaded.files).files

/-- The log file can be opened, which leaves these files. -/
def OpensLog (around : Surroundings) (fs : Files) : Prop :=
  openLog (prepared around) (inFolder (settings around).paths.logs (logFilePrefix ++ "." ++ around.date)) = .ok fs

section
variable {around : Surroundings} {store : Store} {fs : Files} {printed : String}

theorem run_of_opensLog [Wording] (h : OpensLog around fs) : ∃ store printed, store.settings = settings around ∧
    ∀ m, run { around with machine := m } = proceed { around with machine := m } store fs printed := by
  unfold OpensLog prepared settings at h
  unfold run
  simp only at h ⊢
  rw [h]
  exact ⟨_, _, rfl, fun _ => rfl⟩

theorem run_of_not_opensLog [Wording] (h : ∀ fs, ¬ OpensLog around fs) : ∃ gs printed, ∀ m,
    run { around with machine := m } = ⟨.panicked, gs, printed, [], []⟩ := by
  unfold OpensLog prepared settings at h
  unfold run
  simp only at h ⊢
  split
  · exact ⟨_, _, fun _ => rfl⟩
  · rename_i fs hopen
    exact absurd hopen (h fs)

theorem requests_proceed [Wording] :
    (proceed around store fs printed).requests = (connect store.settings.device around.machine).requests := by
  unfold proceed
  simp only
  split <;> rfl

theorem proceed_of_error [Wording] {e : DeviceError}
    (h : (connect store.settings.device around.machine).outcome = .error e) :
    (proceed around store fs printed).ending = .failed (.device e) ∧
      (proceed around store fs printed).printed = printed ++ report (.device e) := by
  unfold proceed
  simp only [h, and_self]

theorem proceed_of_ok [Wording] {channel : Option Channel}
    (h : (connect store.settings.device around.machine).outcome = .ok channel) :
    ∃ s, (proceed around store fs printed).ending = .window s ∧ s.channel = channel ∧
      s.state.vocabulary = (Vocabulary.loadOrBuiltIn fs store.settings.paths.header).1 := by
  unfold proceed
  simp only [h]
  exact ⟨_, rfl, rfl, rfl⟩

theorem proceed_congr [Wording] {m : Machine}
    (h : ∀ r ∈ (proceed around store fs printed).requests, m.AnswersAs around.machine r) :
    proceed { around with machine := m } store fs printed = proceed around store fs printed := by
  rw [requests_proceed] at h
  unfold proceed
  simp only [connect_congr h]

theorem run_congr [Wording] {m : Machine} (h : ∀ r ∈ (run around).requests, m.AnswersAs around.machine r) :
    run { around with machine := m } = run around := by
  by_cases hlog : ∃ fs, OpensLog around fs
  · obtain ⟨fs, hlog⟩ := hlog
    obtain ⟨store, printed, -, hrun⟩ := run_of_opensLog hlog
    rw [hrun m, hrun around.machine]
    refine proceed_congr fun r hr => h r ?_
    rw [hrun around.machine]
    exact hr
  · obtain ⟨gs, printed, hrun⟩ := run_of_not_opensLog (not_exists.mp hlog)
    rw [hrun m, hrun around.machine]

end

/-- How a launch goes with settings for the device and a machine, when reading the header gives a text or a fault. -/
structure Goes [Wording] (d : DeviceSettings) (m : Machine) (header : Except Fault String) (l : Launch) : Prop where
  failed : ∀ p, l.ending = .failed p ↔ ∃ e, p = .device e ∧ d.connect = true ∧ m.Lacks d.baud e
  reported : ∀ p, l.ending = .failed p → ∃ before, l.printed = before ++ report p
  window : (∃ s, l.ending = .window s) ↔ (d.connect = true → ∀ e, ¬ m.Lacks d.baud e)
  unwanted : d.connect = false → l.requests = []
  wanted : d.connect = true → (∃ port, m.ports = .ok [port] ∧ l.requests = [.ports, .port port d.baud]) ∨
    (∀ port, m.ports ≠ .ok [port]) ∧ l.requests = [.ports]
  channel : ∀ s, l.ending = .window s → ∀ c, s.channel = some c ↔
    d.connect = true ∧ m.ports = .ok [c.port] ∧ m.opens c.port d.baud = .ok c.writer
  several : ∀ first second rest, m.ports = .ok (first :: second :: rest) → ∃ s, l.ending = .window s ∧ s.channel = none
  names : ∀ s, l.ending = .window s → s.state.vocabulary = match header with
    | .ok text => .ofText text
    | .error _ => .builtIn

theorem goes_of_error [Wording] {d : DeviceSettings} {m : Machine} {header : Except Fault String} {l : Launch}
    {e : DeviceError} (h : (connect d m).outcome = .error e) (hr : l.requests = (connect d m).requests)
    (he : l.ending = .failed (.device e)) (hp : ∃ before, l.printed = before ++ report (.device e)) :
    Goes d m header l := by
  obtain ⟨hd, hl⟩ := outcome_eq_error_iff.mp h
  have hno : ∀ s, l.ending ≠ .window s := by
    intro s hs
    rw [he] at hs
    cases hs
  refine ⟨fun p => ?_, fun p hf => ?_, ?_, ?_, ?_, ?_, ?_, ?_⟩
  · rw [he]
    constructor
    · rintro ⟨⟩
      exact ⟨e, rfl, hd, hl⟩
    · rintro ⟨e', rfl, hl'⟩
      rw [outcome_eq_error_iff.mpr hl'] at h
      cases h
      rfl
  · rw [he] at hf
    cases hf
    exact hp
  · exact iff_of_false (fun ⟨s, hs⟩ => hno s hs) fun hw => hw hd e hl
  · rw [hr]; exact requests_of_unwanted m
  · rw [hr]; exact requests_of_wanted m
  · exact fun s hs => absurd hs (hno s)
  · intro first second rest hports
    cases hl with
    | listing hn => rw [hports] at hn; cases hn
    | noPorts hn => rw [hports] at hn; cases hn
    | opening hn _ => rw [hports] at hn; cases hn
  · exact fun s hs => absurd hs (hno s)

theorem goes_of_ok [Wording] {d : DeviceSettings} {m : Machine} {header : Except Fault String} {l : Launch}
    {s : Session}
    (h : (connect d m).outcome = .ok s.channel) (hr : l.requests = (connect d m).requests) (he : l.ending = .window s)
    (hn : s.state.vocabulary = match header with | .ok text => .ofText text | .error _ => .builtIn) :
    Goes d m header l := by
  have hno : ∀ e, ¬ (d.connect = true ∧ m.Lacks d.baud e) := by
    intro e hl
    rw [outcome_eq_error_iff.mpr hl] at h
    cases h
  have hfailed : ∀ p, l.ending ≠ .failed p := by
    intro p hf
    rw [he] at hf
    cases hf
  refine ⟨fun p => ?_, fun p hf => absurd hf (hfailed p), ?_, ?_, ?_, fun t ht => ?_, ?_, fun t ht => ?_⟩
  · exact iff_of_false (hfailed p) fun ⟨e, _, hl⟩ => hno e hl
  · exact iff_of_true ⟨s, he⟩ fun hd e hl => hno e ⟨hd, hl⟩
  · rw [hr]; exact requests_of_unwanted m
  · rw [hr]; exact requests_of_wanted m
  · rw [he] at ht
    cases ht
    exact eq_some_iff_of_outcome h
  · intro first second rest hports
    refine ⟨s, he, ?_⟩
    rw [Option.eq_none_iff_forall_ne_some]
    intro c hc
    have hp := ((eq_some_iff_of_outcome h c).mp hc).2.1
    rw [hports] at hp
    cases hp
  · rw [he] at ht
    cases ht
    exact hn

/-- **When the window opens, and with what.** If the log file can be opened, the program ends just when the settings in
memory want a device and there is none; else the window opens, whatever happened to the configuration file and to the
header. Of the machine it learns nothing but the answers to its requests. -/
theorem goes_of_opensLog [Wording] {around : Surroundings} {fs : Files} (h : OpensLog around fs) :
    Goes (settings around).device around.machine (fs.readText (settings around).paths.header) (run around) ∧
      ∀ m : Machine, (∀ r ∈ (run around).requests, m.AnswersAs around.machine r) →
        run { around with machine := m } = run around := by
  refine ⟨?_, fun m hm => run_congr hm⟩
  obtain ⟨store, printed, hs, hrun⟩ := run_of_opensLog h
  have hrun : run around = proceed around store fs printed := hrun around.machine
  rw [hrun, ← hs]
  cases ho : (connect store.settings.device around.machine).outcome with
  | error e =>
    obtain ⟨he, hp⟩ := @proceed_of_error around store fs printed _ e ho
    exact goes_of_error ho requests_proceed he ⟨printed, hp⟩
  | ok channel =>
    obtain ⟨s, he, hc, hn⟩ := @proceed_of_ok around store fs printed _ channel ho
    rw [← hc] at ho
    refine goes_of_ok ho requests_proceed he (hn.trans ?_)
    rw [Vocabulary.loadOrBuiltIn_eq]
    cases fs.readText store.settings.paths.header <;> rfl

/-- A configuration file that is no document, no header, and one port. -/
def malformed : Surroundings where
  files := ⟨[(["work"], .directory), (["work", ".config"], .directory),
    (["work", ".config", "bct.toml"], .file "=".toUTF8)], ["work"], []⟩
  machine := ⟨.ok ["p"], fun _ _ => .ok {}⟩
  date := "today"

def slow : Machine := ⟨.ok ["p"], fun _ baud => if baud = 115200 then .ok {} else .error "unsupported"⟩

section

attribute [local instance] Wording.plain

/-- The window opens with the port and with the built-in names, also where no other speed is supported. -/
theorem goes_of_opensLog_malformed : ∃ fs, OpensLog malformed fs ∧
    (Store.load ⟨Settings.standardPath, {}⟩ malformed.files).error? = some (.malformed "=") ∧
    (run malformed).requests = [.ports, .port "p" 115200] ∧
    run { malformed with machine := slow } = run malformed ∧
    ∃ s, (run malformed).ending = .window s ∧ s.channel = some ⟨"p", {}⟩ ∧ s.state.vocabulary = .builtIn := by
  let fs : Files := ⟨[(["work", ".logs", "bct.log.today"], .file .empty), (["work", ".logs"], .directory),
    (["work"], .directory), (["work", ".config"], .directory), (["work", ".config", "bct.toml"], .file "=".toUTF8)],
    ["work"], []⟩
  have hlog : OpensLog malformed fs := rfl
  have hd : (settings malformed).device = {} := by decide +kernel
  have hheader : fs.readText (settings malformed).paths.header = .error .notFound := rfl
  obtain ⟨hgoes, hcongr⟩ := goes_of_opensLog hlog
  rw [hd, hheader] at hgoes
  have hlacks : ∀ e, ¬ malformed.machine.Lacks 115200 e := by
    rintro e (⟨⟨⟩⟩ | ⟨⟨⟩⟩ | ⟨-, ⟨⟩⟩)
  have hrequests : (run malformed).requests = [.ports, .port "p" 115200] := by
    rcases hgoes.wanted rfl with ⟨port, hp, hr⟩ | ⟨hno, -⟩
    · cases hp
      exact hr
    · exact absurd rfl (hno "p")
  have hanswers : ∀ r ∈ (run malformed).requests, slow.AnswersAs malformed.machine r := by
    rw [hrequests]
    intro r hr
    rcases List.mem_cons.mp hr with rfl | hr
    · rfl
    · obtain rfl : r = .port "p" 115200 := List.mem_singleton.mp hr
      rfl
  obtain ⟨s, hs⟩ := hgoes.window.mpr fun _ => hlacks
  exact ⟨fs, hlog, by decide +kernel, hrequests, hcongr slow hanswers, s, hs,
    (hgoes.channel s hs ⟨"p", {}⟩).mpr ⟨rfl, rfl, rfl⟩, hgoes.names s hs⟩

end

end Startup

end Broadcast
