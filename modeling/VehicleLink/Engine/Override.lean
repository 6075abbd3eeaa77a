import VehicleLink.Engine.Basic

namespace VehicleLink

def Override.hasExpired (o : Override) (now : Nat) : Bool :=
  o.timeout ≠ 0 && o.timeout < now - o.since

namespace Engine

def engageOverride (e : Engine) (channels : Channels) (timeout : Nat) :
    Engine × Except WireError Unit :=
  { e with channels := some ⟨channels, timeout, e.now⟩ }.send (.overrideChannels channels)

def releaseOverride (e : Engine) : Engine := { e with channels := none }

def resendOverride (e : Engine) : Engine :=
  match e.channels with
  | none => e
  | some o =>
    if o.hasExpired e.now then e.releaseOverride
    else (e.send (.overrideChannels o.channels)).1

def runOverride (e : Engine) : Engine :=
  match e.overrideTimer with
  | some t =>
    if t.due ≤ e.now then { e with overrideTimer := some (t.next e.now) }.resendOverride else e
  | none => e

end Engine

end VehicleLink
