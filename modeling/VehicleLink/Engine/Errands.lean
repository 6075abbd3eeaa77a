import VehicleLink.Engine.Basic

namespace VehicleLink.Engine

def param? (e : Engine) (name : String) : Except ParamError Single :=
  match e.params.get? name with
  | some value => .ok value
  | none => .error (.notFound name)

def sleep (e : Engine) (id delay : Nat) (errand : Errand) : Engine :=
  { e with jobs := e.jobs ++ [⟨id, e.now + Timer.span delay, errand⟩] }

def verify (e : Engine) (id : Nat) (name : String) (value : Single) : Engine :=
  e.finish id <| .set <|
    match e.param? name with
    | .error cause => .error cause
    | .ok actual =>
      if actual.same value then .ok () else .error (.setFailed name value actual)

def setParam (e : Engine) (id : Nat) (name : String) (value : Single) : Engine :=
  match e.send (.setParameter name value) with
  | (e, .error cause) => e.finish id (.set (.error (.transport cause)))
  | (e, .ok _) =>
    let pause := e.config.paramSettle.toNat
    if pause = 0 then e.verify id name value else e.sleep id pause (.verify name value)

def fetchParam (e : Engine) (id : Nat) (index : UInt16) : Nat → Engine
  | 0 =>
    e.finish id <| .value <|
      match e.params.atIndex? index with
      | some value => .ok value
      | none => .error (.unavailable index)
  | attempts + 1 =>
    match e.params.atIndex? index with
    | some value => e.finish id (.value (.ok value))
    | none =>
      match e.send (.requestParameter index) with
      | (e, .error cause) => e.finish id (.value (.error (.transport cause)))
      | (e, .ok _) =>
        let pause := e.config.paramReadDelay.toNat
        if pause = 0 then fetchParam e id index attempts
        else e.sleep id pause (.fetch index attempts)

def awaitParams (e : Engine) (id delay : Nat) : Nat → Engine
  | 0 => e.finish id (.synced e.params.isComplete)
  | attempts + 1 =>
    if e.params.isComplete then e.finish id (.synced true)
    else if delay = 0 then awaitParams e id delay attempts
    else e.sleep id delay (.await attempts delay)

def resumeJob (e : Engine) (j : Job) : Engine :=
  match j.errand with
  | .verify name value => e.verify j.id name value
  | .fetch index attempts => e.fetchParam j.id index attempts
  | .await attempts delay => e.awaitParams j.id delay attempts

def runJobs (e : Engine) : Engine :=
  let (due, asleep) := e.jobs.partition (·.wake ≤ e.now)
  due.foldl resumeJob { e with jobs := asleep }

def refresh (e : Engine) : Engine :=
  let phase := if e.vehicle.phase = .ready then .syncingParameters else e.vehicle.phase
  { e with params := .empty, vehicle.phase := phase }

end VehicleLink.Engine
