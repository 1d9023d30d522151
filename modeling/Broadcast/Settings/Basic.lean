import Broadcast.Log.Level

/-!
# Settings

The settings of the program come in three sections, each with its own default.
-/

namespace Broadcast

structure PathSettings where
  header : String := "../include/structures.h"
  logs : String := ".logs"
  deriving DecidableEq, Repr, Inhabited

structure DeviceSettings where
  baud : UInt32 := 115200
  /-- Whether a device must be found before the window opens. -/
  connect : Bool := true
  deriving DecidableEq, Repr, Inhabited

structure LogSettings where
  level : Level := .standard
  deriving DecidableEq, Repr, Inhabited

structure Settings where
  paths : PathSettings := {}
  device : DeviceSettings := {}
  logging : LogSettings := {}
  deriving DecidableEq, Repr, Inhabited

inductive Section where
  | paths
  | device
  | logging
  deriving DecidableEq, Repr, Inhabited

namespace Section

def all : List Section := [paths, device, logging]

def name : Section → String
  | paths => "paths"
  | device => "device"
  | logging => "logging"

def ofName? (s : String) : Option Section :=
  all.find? fun x => x.name == s

theorem mem_all (s : Section) : s ∈ all := by cases s <;> decide

theorem name_injective {a b : Section} (h : a.name = b.name) : a = b := by
  cases a <;> cases b <;> simp_all [name]

end Section

def Settings.standardPath : String := ".config/bct.toml"

end Broadcast
