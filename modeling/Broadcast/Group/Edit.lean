import Broadcast.Group.Basic
import Broadcast.Text.Fields

/-!
# Edits

An edit changes one field of one group. Texts that are too long and numbers out
of range are stored in their *normal form*, which an edit is turned into before
it is applied. What cannot be stored at all is refused.
-/

namespace Broadcast

inductive GroupEdit where
  | preset (name : String)
  | subgroupCount (n : UInt8)
  | packing (p : Packing)
  | encryption (on : Bool)
  | code (text : String)
  deriving DecidableEq, Repr

inductive SubgroupEdit where
  | context (name : String)
  | streams (n : UInt8)
  | language (text : String)
  deriving DecidableEq, Repr

inductive CustomEdit where
  | sduInterval (us : UInt32)
  | framing (f : Framing)
  | octetsPerSdu (n : UInt16)
  | rtn (n : UInt8)
  | maxTransportLatency (ms : UInt16)
  | presentationDelay (us : UInt32)
  deriving DecidableEq, Repr

inductive Edit where
  | group (id : GroupId) (e : GroupEdit)
  | subgroup (id : GroupId) (index : Nat) (e : SubgroupEdit)
  | custom (id : GroupId) (e : CustomEdit)
  deriving DecidableEq, Repr

namespace Edit

def target : Edit → GroupId
  | group id _ => id
  | subgroup id _ _ => id
  | custom id _ => id

end Edit

/-! ## Normal forms -/

def GroupEdit.normal : GroupEdit → GroupEdit
  | code text => code (truncated codeMax text)
  | e => e

def SubgroupEdit.normal : SubgroupEdit → SubgroupEdit
  | streams n => streams (max streamsMin n)
  | language text => language (truncated languageMax text)
  | e => e

def CustomEdit.normal : CustomEdit → CustomEdit
  | rtn n => rtn (min rtnMax n)
  | e => e

def Edit.normal : Edit → Edit
  | group id e => group id e.normal
  | subgroup id index e => subgroup id index e.normal
  | custom id e => custom id e.normal

/-! ## Storing -/

namespace Group

/-- The group with a new preset. Coming from the catalog, a custom preset starts
from the seed. -/
def withPreset (g : Group) (name : String) : Group :=
  { g with preset := name, custom := if !g.isCustom && Preset.isCustom name then Preset.seed else g.custom }

def entersCustom (g : Group) : GroupEdit → Bool
  | .preset name => !g.isCustom && Preset.isCustom name
  | _ => false

def store (g : Group) : GroupEdit → Group
  | .preset name => g.withPreset name
  | .subgroupCount n => settle { g with subgroupCount := n }
  | .packing p => { g with packing := p }
  | .encryption on => { g with encrypted := on }
  | .code text => { g with code := text }

end Group

def Subgroup.store (s : Subgroup) : SubgroupEdit → Subgroup
  | .context name => { s with context := name }
  | .streams n => { s with streams := n }
  | .language text => { s with language := text }

def Params.store (p : Params) : CustomEdit → Params
  | .sduInterval us => { p with sduInterval := us }
  | .framing f => { p with framing := f }
  | .octetsPerSdu n => { p with octetsPerSdu := n }
  | .rtn n => { p with rtn := n }
  | .maxTransportLatency ms => { p with maxTransportLatency := ms }
  | .presentationDelay us => { p with presentationDelay := us }

/-! ## Applying -/

inductive EditError where
  | noSubgroup (id : GroupId) (index count : Nat)
  | notCustom (id : GroupId) (preset : String)
  | badInterval (us : UInt32)
  deriving DecidableEq, Repr

namespace EditError

def message : EditError → String
  | noSubgroup id index count =>
    id.name ++ " has no subgroup " ++ Nat.repr index ++ " (it has " ++ Nat.repr count ++ ")"
  | notCustom id preset => id.name ++ " uses catalog preset " ++ preset ++ "; its parameters are read-only"
  | badInterval us => "Unsupported SDU interval: " ++ Nat.repr us.toNat ++ " us"

end EditError

def CustomEdit.refusal? : CustomEdit → Option EditError
  | sduInterval us => if sduIntervals.contains us then none else some (.badInterval us)
  | _ => none

namespace Group

def edit (g : Group) : Edit → Except EditError Group
  | .group _ e => .ok (g.store e.normal)
  | .subgroup id index e =>
    match g.subgroups[index]? with
    | some s => .ok { g with subgroups := g.subgroups.set index (s.store e.normal) }
    | none => .error (.noSubgroup id index g.subgroups.length)
  | .custom id e =>
    if !g.isCustom then .error (.notCustom id g.preset)
    else match e.refusal? with
      | some err => .error err
      | none => .ok { g with custom := g.custom.store e.normal }

end Group

end Broadcast
