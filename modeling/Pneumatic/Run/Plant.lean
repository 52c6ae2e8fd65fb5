import Pneumatic.Field.Controller
import Pneumatic.Run.Schedule

/-!
# A simulated plant

Simulated controllers by endpoint as the field of runs.  Connecting succeeds where
there is a controller, and everything else is up to the controller.
-/

namespace Pneumatic.Run

/-- A registry and simulated controllers by endpoint. -/
structure Plant where
  registry : Device.Registry
  controllers : List (String × Field.Controller)

namespace Plant

/-- The controller at an endpoint. -/
def controller? (plant : Plant) (endpoint : String) : Option Field.Controller :=
  plant.controllers.lookup endpoint

/-- Change the controller at an endpoint. -/
def update (plant : Plant) (endpoint : String) (change : Field.Controller → Field.Controller) :
    Plant :=
  { plant with
    controllers := plant.controllers.map fun (name, controller) =>
      (name, if name = endpoint then change controller else controller) }

/-- Operate on the controller at an endpoint. -/
def operate {α : Type} (plant : Plant) (endpoint : String)
    (operation : Field.Controller → Except Field.Error α × Field.Controller) :
    Except Field.Error α × Plant :=
  match plant.controller? endpoint with
  | none => (.error (.session "session closed"), plant)
  | some controller =>
      let (reply, controller) := operation controller
      (reply, plant.update endpoint fun _ => controller)

/-- What is wrong with an endpoint that has no controller. -/
def noController : String := "no controller at endpoint"

/-- Answer a request. -/
def perform (request : Request) (lease : Device.Lease) (endpoint : String) (now : Nat)
    (plant : Plant) : request.Reply × Plant :=
  match request with
  | .connect =>
      if (plant.controller? endpoint).isSome then (Except.ok (), plant)
      else (Except.error (.connect endpoint noController), plant)
  | .openSession => (Except.ok (), plant.update endpoint Field.Controller.openSession)
  | .write writes => plant.operate endpoint (·.write writes now)
  | .read tag => plant.operate endpoint (·.read tag now)
  | .checkStop => (plant.registry.stopRequested lease.address, plant)
  | .closeSession => (Except.ok (), plant.update endpoint Field.Controller.closeSession)
  | .disconnect => (Except.ok (), plant)

/-- Simulated controllers as a field for runs. -/
def field : Field Plant where
  registry := registry
  setRegistry registry plant := { plant with registry }
  perform := perform

end Plant

end Pneumatic.Run
