import Broadcast.Device.Channel
import Broadcast.Files.Tree

/-!
# Machines

A machine says which serial ports it has and what happens when one is opened.
The device is found only if there is exactly one port: with several the choice
would be a guess, so none is opened.
-/

namespace Broadcast

structure Machine where
  ports : Except String (List String)
  opens : String → UInt32 → Except String Writer

inductive Request where
  | ports
  | port (name : String) (baud : UInt32)
  deriving DecidableEq, Repr

def Request.port? : Request → Option (String × UInt32)
  | ports => none
  | port name baud => some (name, baud)

structure Connection where
  outcome : Except DeviceError (Option Channel)
  requests : List Request := []
  log : List Record := []

def Connection.tried (c : Connection) : List (String × UInt32) := c.requests.filterMap Request.port?

namespace Machine

def connect (m : Machine) (baud : UInt32) : Connection :=
  match m.ports with
  | .error cause => ⟨.error (.listing cause), [.ports], []⟩
  | .ok ports =>
    let listed := Channel.record .debug ("Serial ports: " ++ quotedList ports)
    match ports with
    | [] => ⟨.error .noPorts, [.ports], [listed]⟩
    | [port] =>
      match m.opens port baud with
      | .error cause => ⟨.error (.opening port cause), [.ports, .port port baud], [listed]⟩
      | .ok writer =>
        ⟨.ok (some ⟨port, writer⟩), [.ports, .port port baud],
          [listed, Channel.record .info ("Opened " ++ port ++ " at " ++ Nat.repr baud.toNat ++ " baud")]⟩
    | _ =>
      ⟨.ok none, [.ports], [listed, Channel.record .warn ("Found " ++ Nat.repr ports.length ++ " serial ports (" ++
        String.intercalate ", " ports ++ "); not opening any")]⟩

def openTerminal (fs : Files) (path : String) : Except String Writer :=
  match fs.locate path with
  | .error fault => .error fault.description
  | .ok loc =>
    match fs.get? loc with
    | some .terminal => .ok {}
    | some .directory => .error Fault.isADirectory.description
    | some (.file _) => .error "Not a typewriter"
    | none => .error Fault.notFound.description

def ofFiles (ports : Except Nat (List String)) (fs : Files) : Machine where
  ports := match ports with
    | .error code => .error (Fault.system code).description
    | .ok names => .ok names
  opens port _ := openTerminal fs port

end Machine

end Broadcast
