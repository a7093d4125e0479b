import QUniLator.Framework.Run
import Mathlib.Data.List.Nodup

namespace QUniLator.Web

/-- The devices of a board, `registry` in the order they were made. `image` says that a device has a medium, `drives`
leave the bus with their controller, `box` is switched with the processor of its box, `window` is what a card answers
in the I/O page. -/
structure Rack (ι : Type*) where
  registry : List ι
  parent : ι → Option ι
  image : ι → Bool
  drives : ι → List ι
  box : ι → List ι
  window : ι → Option (Nat × Nat)
  nodup : registry.Nodup
  all : ∀ d,d∈registry
  flat : ∀ c,∀ d∈drives c++box c,box d=[]

/-- `carried_device_t` -/
structure CarriedDevice (ι : Type*) where
  dev : ι
  image : String
  hadImage : Bool
  deriving DecidableEq,Repr

/-- The devices as they are, `medium` being the image parameter of a drive, and the machine that is carried -/
structure Machine (ι : Type*) where
  enabled : ι → Bool
  medium : ι → String
  carried : List (CarriedDevice ι)
  machineDark : Bool

/-- `devicesOn` with the devices that are refused and the drives that cannot open a medium; `setImage` with the path
as the image tree has it, and whether there is such a file. -/
inductive PowerStep (ι : Type*)
  | devicesOff
  | devicesOn (refused unopened : List ι)
  | setInMachine (dev : ι) (on : Bool)
  | setImage (dev : ι) (path : String) (imageExists : Bool)

namespace Machine

variable {ι : Type*} [DecidableEq ι] (r : Rack ι) (m : Machine ι)

def carriedEntry (dev : ι) : Option (CarriedDevice ι) :=
  if m.machineDark then m.carried.find? (·.dev=dev) else none

def isInMachine (dev : ι) : Bool := (m.carriedEntry dev).isSome || m.enabled dev

/-- `webpower_param_value` of the image parameter -/
def paramValue (dev : ι) : String :=
  match m.carriedEntry dev with
  | some d => if d.hadImage then d.image else m.medium dev
  | none => m.medium dev

def setMedium (dev : ι) (path : String) (opens : Bool) : Machine ι :=
  if m.medium dev=path then m
  else if path = "" ∨ opens then { m with medium := Function.update m.medium dev path }
  else m

/-- `enabled.set(false)` -/
def disable (dev : ι) : Machine ι :=
  if m.enabled dev then { m with enabled := fun d => m.enabled d && !(d=dev || d∈r.drives dev++r.box dev) }
  else m

/-- `enabled.set(true)` -/
def enable (refused : List ι) (dev : ι) : Machine ι :=
  if m.enabled dev || dev∈refused then m
  else { m with enabled := fun d => m.enabled d || d=dev || (d∈r.box dev && d∉refused) }

def entryFor (dev : ι) : CarriedDevice ι := ⟨dev,if r.image dev then m.medium dev else "",r.image dev⟩

def carriedInRegistryOrder : List (CarriedDevice ι) :=
  r.registry.filterMap fun dev => m.carried.find? (·.dev=dev)

def overlap : Option (Nat × Nat) → Option (Nat × Nat) → Bool
  | some (first,beyond),some (first',beyond') => first<beyond' && first'<beyond
  | _,_ => false

def addressConflict (dev : ι) : Bool :=
  m.carried.any fun d => d.dev≠dev && overlap (r.window dev) (r.window d.dev)

def takeOne (d : CarriedDevice ι) : Machine ι :=
  if d.hadImage && d.image ≠ "" then (m.disable r d.dev).setMedium d.dev "" true else m.disable r d.dev

def takeOut (devs : List (CarriedDevice ι)) : Machine ι := devs.foldl (takeOne r) m

def devicesOff : Machine ι :=
  if m.machineDark then m
  else
    let taken := (r.registry.filter m.enabled).map (m.entryFor r)
    takeOut r { m with carried := taken,machineDark := true } taken

def putOne (refused unopened : List ι) (d : CarriedDevice ι) : Machine ι :=
  if d.hadImage && d.image ≠ "" then (m.setMedium d.dev d.image (d.dev∉unopened)).enable r refused d.dev
  else m.enable r refused d.dev

/-- The loop of the power-up, with the cards that it has tried: it ends at the first one that does not come up. -/
def putIn (refused unopened : List ι) :
    List (CarriedDevice ι) → List (CarriedDevice ι) → Machine ι → Machine ι × Option (List (CarriedDevice ι))
  | _,[],m => (m,none)
  | tried,d::devs,m =>
    let m := m.putOne r refused unopened d
    if m.enabled d.dev then putIn refused unopened (tried++[d]) devs m else (m,some (tried++[d]))

def powered (restore : List (CarriedDevice ι)) : Machine ι × Option (List (CarriedDevice ι)) → Machine ι × Bool
  | (m,none) => (m,true)
  | (m,some installed) => (takeOut r { m with carried := restore,machineDark := true } installed,false)

def devicesOn (refused unopened : List ι) : Machine ι × Bool :=
  if m.machineDark=false then (m,true)
  else if m.carried.any fun d => m.addressConflict r d.dev then (m,false)
  else
    let restore := m.carriedInRegistryOrder r
    powered r restore (putIn r refused unopened [] restore { m with carried := [],machineDark := false })

def setInMachine (dev : ι) (on : Bool) : Machine ι × Bool :=
  if m.machineDark=false then (m,false)
  else if on then
    if (m.carriedEntry dev).isSome then (m,true)
    else if m.addressConflict r dev then (m,false)
    else ({ m with carried := m.carried++[m.entryFor r dev] },true)
  else ({ m with carried := m.carried.filter fun d => d.dev≠dev && r.parent d.dev≠some dev },true)

def hasController (dev : ι) : Bool :=
  match r.parent dev with
  | some c => (m.carriedEntry c).isSome
  | none => true

def holdImage (dev : ι) (path : String) : Machine ι :=
  { m with carried := m.carried.map fun d => if d.dev=dev then { d with image := path } else d }

def setImage (dev : ι) (path : String) (imageExists : Bool) : Machine ι × Bool :=
  if r.image dev=false then (m,false)
  else if imageExists=false then (m,false)
  else if m.machineDark=false then (m,false)
  else if (m.carriedEntry dev).isSome then (m.holdImage dev path,true)
  else if path = "" then (m,true)
  else if m.hasController r dev=false then (m,false)
  else ({ m with carried := m.carried++[{ m.entryFor r dev with image := path }] },true)

def step : PowerStep ι → Machine ι × Bool
  | .devicesOff => (m.devicesOff r,true)
  | .devicesOn refused unopened => m.devicesOn r refused unopened
  | .setInMachine dev on => m.setInMachine r dev on
  | .setImage dev path imageExists => m.setImage r dev path imageExists

end Machine

end QUniLator.Web
