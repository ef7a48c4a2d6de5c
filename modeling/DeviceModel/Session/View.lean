import DeviceModel.Session.Step
import DeviceModel.Table

/-!
The handles of a session, and what is seen of the objects they hold.
-/

namespace DeviceModel

/-- `next` is greater than every serial number given out. -/
structure Session where
  handles : Table String Held
  next : Serial

namespace Session

def empty : Session := ⟨.empty, 0⟩

variable (s : Session)

def held? (h : String) : Option Held := s.handles.get? h

def living : Living := .ofHeld s.handles.values

def facet (d : Directory) (name : String) : Facet → Value
  | .attr => .ofOption .attr (d.attribute? name)
  | .link => .ofOption .link (d.link? name)
  | .subdir => .ofOption (fun x => .summary (.directory x.summary)) (d.subdir? name)
  | .value => .ofOption .text (d.valueOf name)

def view (h : String) (f : Held → Outcome) : Outcome :=
  match s.held? h with
  | some x => f x
  | none => .noHandle

def look (sys : Mounted) : View → Outcome
  | .context => .ok (.context sys.mount sys.busPath sys.describe)
  | .classPath name => .ok (.text (sys.classPath name))
  | .summary h => s.view h fun x => .ok (.summary (s.living.summary x))
  | .dump h down => s.view h fun x =>
      .ok (.ofOption (fun d => .directories (d.flatten 0)) (x.snapshot.descend down))
  | .tree h => s.view h fun
      | .device d => .ok (.devices (d.object.flatten 0))
      | _ => .badHandle
  | .child h down => s.view h fun
      | .device d => .ok (.ofOption (fun c => .summary (.device (s.living.deviceSummary c)))
          (d.object.descend down))
      | _ => .badHandle
  | .attr h name => s.view h fun x => .ok (facet x.snapshot name .attr)
  | .links h => s.view h fun x => .ok (.links x.snapshot.links)
  | .lookup h down what name => s.view h fun x =>
      .ok (match x.snapshot.descend down with
        | some d => facet d name what
        | none => .nothing)
  | .classDevice h name => s.view h fun
      | .deviceClass k => .ok (.ofOption
          (fun c => .summary (.classDevice (s.living.classDeviceSummary c))) (k.device? name))
      | _ => .badHandle

end Session

end DeviceModel
