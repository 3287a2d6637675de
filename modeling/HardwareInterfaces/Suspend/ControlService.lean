import HardwareInterfaces.Lib.StdString
import Mathlib.Data.List.AList

/-!
# Callbacks of the suspend control service

The registry of `SuspendControlService`: the suspend callbacks in the order of their registration, the wakelock
callbacks by wakelock name, and the binders whose death the service asked to be told about. A
callback is identified by its binder; only a remote binder can be linked to death, and the binder driver
decides whether a link succeeds.
-/

namespace HardwareInterfaces.Suspend

open CppStd

abbrev Binder := Nat

structure Callback where
  binder : Binder
  remote : Bool
  deriving DecidableEq

structure Registry where
  mCallbacks : List Callback := []
  mWakelockCallbacks : AList (fun _ : StdString => List Callback) := ∅
  deathLinks : List Binder := []

namespace Registry

def hasCb (cb : Callback) (r : Registry) : Bool := r.mCallbacks.any fun i => i.binder = cb.binder

/-- `registerCallback` up to its insertion, `linked` being the success of `linkToDeath`; `none` if it gives up. -/
def linkCallback (cb : Callback) (linked : Bool) (r : Registry) : Option Registry :=
  if cb.remote && !r.hasCb cb then
    if linked then some { r with deathLinks := cb.binder :: r.deathLinks } else none
  else some r

def pushCallback (cb : Callback) (r : Registry) : Registry := { r with mCallbacks := r.mCallbacks ++ [cb] }

/-- `mWakelockCallbacks[name]`, which inserts an empty vector for a new name. -/
def wakelockSlot (name : StdString) (r : Registry) : List Callback × Registry :=
  match r.mWakelockCallbacks.lookup name with
  | some cbs => (cbs, r)
  | none => ([], { r with mWakelockCallbacks := r.mWakelockCallbacks.insert name [] })

/-- `registerWakelockCallback` up to its insertion, and whether it goes on to that. -/
def linkWakelockCallback (cb : Callback) (name : StdString) (linked : Bool) (r : Registry) : Bool × Registry :=
  let (cbs, r) := r.wakelockSlot name
  if cbs.any fun i => i.binder = cb.binder then (false, r)
  else if cb.remote then
    if linked then (true, { r with deathLinks := cb.binder :: r.deathLinks }) else (false, r)
  else (true, r)

def pushWakelockCallback (cb : Callback) (name : StdString) (r : Registry) : Registry :=
  let (cbs, r) := r.wakelockSlot name
  { r with mWakelockCallbacks := r.mWakelockCallbacks.insert name (cbs ++ [cb]) }

def eraseCallbacks (who : Binder) (r : Registry) : Registry :=
  { r with mCallbacks := r.mCallbacks.filter fun i => i.binder ≠ who }

/-- One turn of the second loop of `binderDied`: drop the callbacks of `who` under a name, and the name with
its last callback. -/
def eraseUnder (who : Binder) (m : AList fun _ : StdString => List Callback) (name : StdString) :
    AList fun _ : StdString => List Callback :=
  match m.lookup name with
  | none => m
  | some cbs =>
    let cbs := cbs.filter fun i => i.binder ≠ who
    if cbs = [] then m.erase name else m.replace name cbs

def eraseWakelockCallbacks (who : Binder) (r : Registry) : Registry :=
  { r with mWakelockCallbacks := r.mWakelockCallbacks.keys.foldl (eraseUnder who) r.mWakelockCallbacks }

def wakelockCallbacks (name : StdString) (r : Registry) : List Callback :=
  (r.mWakelockCallbacks.lookup name).getD []

end Registry

end HardwareInterfaces.Suspend
