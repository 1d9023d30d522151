import Broadcast.Session.Basic

/-!
# What the window shows

A tab is a list of widgets in the order they are read: rows from left to right,
columns from top to bottom. A widget holds the value it shows and what it sends
when it is used, so it can only send what its list or its range offers.
-/

namespace Broadcast

inductive Widget where
  | text (s : String)
  | button (label : String) (message : Message)
  /-- A list to pick from: the options with what they send, and the one that is selected. -/
  | pick (options : List (String × Edit)) (selected : String)
  | number (value low high : Nat) (edit : Nat → Edit)
  | input (value : String) (edit : String → Edit)
  | toggle (on : Bool) (edit : Bool → Edit)

namespace Widget

def text? : Widget → Option String
  | text s => some s
  | button label _ => some label
  | number value _ _ _ => some ("[" ++ Nat.repr value ++ "]")
  | input value _ => some ("[" ++ value ++ "]")
  | _ => none

def names (options : List String) (selected : String) (edit : String → Edit) : Widget :=
  pick (options.map fun s => (s, edit s)) selected

end Widget

namespace Session

open Widget

/-! ## Overview -/

def summary (s : Session) (id : GroupId) : List Widget :=
  let g := s.state.group id
  [ text id.name,
    text "Preset:", names s.state.vocabulary.presets g.preset fun name => .group id (.preset name),
    text "Number of subgroups:",
    number g.subgroupCount.toNat 0 255 fun n => .group id (.subgroupCount n.toUInt8),
    text "Packing:", pick (Packing.all.map fun p => (p.name, .group id (.packing p))) g.packing.name,
    text "Encryption:", toggle g.encrypted fun on => .group id (.encryption on),
    text "Broadcast code:", input g.code fun t => .group id (.code t),
    text ("max " ++ Nat.repr codeMax ++ " characters") ]

def deviceRow (s : Session) : List Widget :=
  [ button "Start broadcasting" .start,
    text (match s.port? with
      | some port => "Device: " ++ port
      | none => "No device"),
    text s.headerPath,
    button "Load header..." .browse ]

def overview (s : Session) : List Widget :=
  GroupId.all.flatMap s.summary ++ s.deviceRow ++ text "Log" :: s.notes.map fun n => text n.text

/-! ## Group tabs -/

def fixedRows (p : Params) (bitrate : String) : List Widget :=
  [ text "SDU interval (us):", text (Nat.repr p.sduInterval.toNat),
    text "Framing:", text p.framing.name,
    text "Octets per SDU:", text (Nat.repr p.octetsPerSdu.toNat),
    text "Bitrate (kbps):", text bitrate,
    text "Retransmits:", text (Nat.repr p.rtn.toNat),
    text "Max Transport Latency (ms):", text (Nat.repr p.maxTransportLatency.toNat),
    text "Presentation Delay (us):", text (Nat.repr p.presentationDelay.toNat) ]

def customRows (id : GroupId) (p : Params) (bitrate : String) : List Widget :=
  [ text "SDU interval (us):",
    pick (sduIntervals.map fun us => (Nat.repr us.toNat, .custom id (.sduInterval us))) (Nat.repr p.sduInterval.toNat),
    text "Framing:", pick (Framing.all.map fun f => (f.name, .custom id (.framing f))) p.framing.name,
    text "Octets per SDU:", number p.octetsPerSdu.toNat 0 65535 fun n => .custom id (.octetsPerSdu n.toUInt16),
    text "Bitrate (kbps):", text bitrate,
    text "Retransmits:", number p.rtn.toNat rtnMin.toNat rtnMax.toNat fun n => .custom id (.rtn n.toUInt8),
    text "Max Transport Latency (ms):",
    number p.maxTransportLatency.toNat 0 65535 fun n => .custom id (.maxTransportLatency n.toUInt16),
    text "Presentation Delay (us):",
    number p.presentationDelay.toNat 0 4294967295 fun n => .custom id (.presentationDelay n.toUInt32) ]

def paramRows (s : Session) (id : GroupId) : List Widget :=
  let v := s.state.view id
  if v.custom then customRows id (s.state.group id).custom v.bitrateText else fixedRows v.params v.bitrateText

def subgroupColumn (contexts : List String) (id : GroupId) (index : Nat) (g : Subgroup) : List Widget :=
  [ text ("Subgroup " ++ Nat.repr (index + 1)),
    text "Context:", names contexts g.context fun name => .subgroup id index (.context name),
    text "Number of BISes:",
    number g.streams.toNat streamsMin.toNat 255 fun n => .subgroup id index (.streams n.toUInt8),
    text ("Language (max " ++ Nat.repr languageMax ++ "):"),
    input g.language fun t => .subgroup id index (.language t) ]

def subgroupColumns (contexts : List String) (id : GroupId) : Nat → List Subgroup → List Widget
  | _, [] => []
  | index, g :: gs => subgroupColumn contexts id index g ++ subgroupColumns contexts id (index + 1) gs

def groupTab (s : Session) (id : GroupId) : List Widget :=
  let g := s.state.group id
  [text "Preset name:", names s.state.vocabulary.presets g.preset fun name => .group id (.preset name)] ++
    s.paramRows id ++ text "Subgroups" ::
      if g.subgroups.isEmpty then [text "No subgroups"]
      else subgroupColumns s.state.vocabulary.contexts id 0 g.subgroups

def view (s : Session) : List Widget :=
  match s.tab with
  | .overview => s.overview
  | .group id => s.groupTab id

def shown (s : Session) : List String := s.view.filterMap Widget.text?

end Session

end Broadcast
