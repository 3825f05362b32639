import ObjectSystem.Session.ClassCommand

/-! # Commands on parcels

Declaring parcels, bootstrapping them, and asking how far they are. -/

namespace ObjectSystem

/-- A part of the init of a parcel, by keys. -/
inductive InitEntry
  | classes (p : ParcelEntry)
  | parcel (key : String)
  | core
  deriving DecidableEq, Repr

/-- A parcel to be declared, by keys. -/
structure ParcelDeclaration where
  key : String
  name : String
  prerequisites : List String
  init : List InitEntry
  deriving DecidableEq, Repr

/-- A command on parcels. -/
inductive ParcelCommand
  | declare (parcels : List ParcelDeclaration)
  | boot (key : String)
  | inspect (key : String)
  deriving DecidableEq, Repr

namespace Session

/-- The parcel of a key, given the parcels by key. -/
def parcelId (known : List (String × ParcelId)) (key : String) : Action ParcelId :=
  require (.malformed "parcel") (known.lookup key)

/-- Finds what a part of an init refers to. -/
def initStep (known : List (String × ParcelId)) : InitEntry → Action InitStep
  | .classes p => do return .classes (← parcelSpec p)
  | .parcel key => do return .parcel (← parcelId known key)
  | .core => pure .core

/-- Runs a command on parcels. -/
def runParcelCommand : ParcelCommand → Action Answer
  | .declare parcels => do
    let before ← look (·.process.declared.length)
    let named := (parcels.zipIdx before).map fun (d, index) => (d.key, ParcelId.declared index)
    let known := named.reverse ++ (← look (·.parcels))
    let declared ← parcels.mapM fun d => do
      let prerequisites ← d.prerequisites.mapM (parcelId known)
      let init ← d.init.mapM (initStep known)
      return (⟨d.name, prerequisites, init⟩ : Parcel)
    changeProcess fun p => { p with declared := p.declared ++ declared }
    change ({ · with parcels := known })
    return .nothing
  | .boot key => do
    let id ← parcelId (← look (·.parcels)) key
    onProcess (Process.boot id)
    return .nothing
  | .inspect key => do
    let id ← parcelId (← look (·.parcels)) key
    look fun s =>
      let p := s.process
      .parcel (((p.parcel? id).map (·.name)).getD "") (p.progress id = .done) (p.describeParcel id)

end Session

end ObjectSystem
