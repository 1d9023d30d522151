import Broadcast.Device.Command
import Broadcast.Device.Writer
import Broadcast.Log.Record
import Broadcast.Text.Quoted

/-!
# Channels

A channel is an open connection to a device. Lines are only sent, nothing is
read back and nothing is sent twice.
-/

namespace Broadcast

inductive DeviceError where
  | noPorts
  | listing (cause : String)
  | opening (port cause : String)
  | writing (port : String) (cause : WriteFault)
  deriving DecidableEq, Repr

namespace DeviceError

def message : DeviceError → String
  | noPorts => "No serial ports found"
  | listing cause => "Failed to list serial ports: " ++ cause
  | opening port cause => "Failed to open " ++ port ++ ": " ++ cause
  | writing port cause => "Failed to write to " ++ port ++ ": " ++ cause.text

def cause? : DeviceError → Option String
  | noPorts => none
  | listing cause => some cause
  | opening _ cause => some cause
  | writing _ cause => some cause.text

end DeviceError

structure Channel where
  port : String
  writer : Writer
  deriving DecidableEq, Repr

structure Sent where
  channel : Channel
  log : List Record := []
  error? : Option DeviceError := none

namespace Channel

def record (level : Level) (message : String) : Record :=
  ⟨level, "bct_core::device::channel", message, []⟩

def sendAll (c : Channel) : List Command → Sent
  | [] => ⟨c, [], none⟩
  | command :: commands =>
    match c.writer.send command.line.toUTF8.toList with
    | (w, some fault) => ⟨{ c with writer := w }, [], some (.writing c.port fault)⟩
    | (w, none) =>
      let rest := sendAll { c with writer := w } commands
      { rest with log := record .info ("Sent to " ++ c.port ++ ": " ++ command.text) :: rest.log }

def send (c : Channel) (order : StartOrder) : Sent := c.sendAll order.commands

def hangUp (c : Channel) : Channel := { c with writer.gone := true }

def describe (c : Channel) : String :=
  "DeviceChannel \x7b port_name: " ++ quoted c.port ++ ", .. \x7d"

end Channel

end Broadcast
