import DeviceModel.Log.Event

/-!
Computations that leave events. `Logged` always answers; `Scan` may fail, and its events
stand whether it fails or not.
-/

namespace DeviceModel

structure Logged (α : Type) where
  events : List Event
  value : α

namespace Logged

variable {α β : Type}

instance : Monad Logged where
  pure a := ⟨[], a⟩
  bind x f := ⟨x.events ++ (f x.value).events, (f x.value).value⟩

@[ext] theorem ext {x y : Logged α} (he : x.events = y.events) (hv : x.value = y.value) :
    x = y := by
  cases x; cases y; simp_all

@[simp] theorem events_pure (a : α) : (pure a : Logged α).events = [] := rfl
@[simp] theorem value_pure (a : α) : (pure a : Logged α).value = a := rfl
@[simp] theorem events_bind (x : Logged α) (f : α → Logged β) :
    (x >>= f).events = x.events ++ (f x.value).events := rfl
@[simp] theorem value_bind (x : Logged α) (f : α → Logged β) :
    (x >>= f).value = (f x.value).value := rfl
@[simp] theorem events_map (f : α → β) (x : Logged α) : (f <$> x).events = x.events := by
  change x.events ++ [] = x.events
  simp
@[simp] theorem value_map (f : α → β) (x : Logged α) : (f <$> x).value = f x.value := rfl

instance : LawfulMonad Logged := LawfulMonad.mk' Logged
  (fun x => by ext <;> simp)
  (fun a f => by ext <;> simp)
  (fun x f g => by ext <;> simp)

def emit (events : List Event) : Logged Unit := ⟨events, ()⟩

def note (n : Notice) : Logged Unit := emit [.noticed n]

@[simp] theorem events_emit (es : List Event) : (emit es).events = es := rfl
@[simp] theorem events_note (n : Notice) : (note n).events = [.noticed n] := rfl

end Logged

/-- What has succeeded with `f` at the end has succeeded before. -/
theorem map_eq_ok_iff {α β : Type} {x : Except Error α} {f : α → β} {b : β} :
    x.map f = .ok b ↔ ∃ a, x = .ok a ∧ f a = b := by
  cases x <;> simp [Except.map]

/-- What has succeeded has succeeded in each part. -/
theorem bind_eq_ok_iff {ε α β : Type} {x : Except ε α} {f : α → Except ε β} {b : β} :
    x.bind f = .ok b ↔ ∃ a, x = .ok a ∧ f a = .ok b := by
  cases x <;> simp [Except.bind]

abbrev Scan := ExceptT Error Logged

namespace Scan

variable {α β : Type}

/-- A question and its answer. -/
def ask (query : Query) (path : String) (answer : Except Error α) : Scan α :=
  ExceptT.mk ⟨[.asked query path], answer⟩

def emit (events : List Event) : Scan Unit := ExceptT.lift (Logged.emit events)

/-- Notes the failure of `x`, and fails with it. -/
def noting (x : Scan α) (n : Error → Notice) : Scan α := ExceptT.mk do
  match ← x.run with
  | .ok a => return .ok a
  | .error e =>
    Logged.note (n e)
    return .error e

/-! ### Runs -/

@[simp] theorem run_ask (query : Query) (path : String) (answer : Except Error α) :
    (ask query path answer).run = ⟨[.asked query path], answer⟩ := rfl
@[simp] theorem run_emit (es : List Event) : (emit es).run = ⟨es, .ok ()⟩ := by
  change Logged.mk (es ++ []) _ = _
  simp

@[simp] theorem run_liftM (x : Except Error α) : (liftM x : Scan α).run = ⟨[], x⟩ := by
  cases x <;> rfl

theorem value_run_lift (x : Logged α) : (ExceptT.lift x : Scan α).run.value = .ok x.value := rfl

theorem value_run_bind (x : Scan α) (f : α → Scan β) :
    (x >>= f).run.value = x.run.value.bind fun a => (f a).run.value := by
  rw [ExceptT.run_bind, Logged.value_bind]
  cases x.run.value <;> rfl

/-- The same for a scan. -/
theorem bind_eq_ok_iff {x : Scan α} {f : α → Scan β} {b : β} :
    (x >>= f).run.value = .ok b ↔ ∃ a, x.run.value = .ok a ∧ (f a).run.value = .ok b := by
  rw [value_run_bind]
  exact DeviceModel.bind_eq_ok_iff

theorem events_run_bind (x : Scan α) (f : α → Scan β) :
    (x >>= f).run.events =
      x.run.events ++ (x.run.value.toOption.map fun a => (f a).run.events).getD [] := by
  rw [ExceptT.run_bind, Logged.events_bind]
  cases x.run.value <;> simp [Except.toOption]

theorem run_bind_of_ok {x : Scan α} {a : α} (h : x.run.value = .ok a) (f : α → Scan β) :
    (x >>= f).run = ⟨x.run.events ++ (f a).run.events, (f a).run.value⟩ := by
  ext : 1
  · rw [events_run_bind, h]; rfl
  · rw [value_run_bind, h]; rfl

/-- What comes after a failure is not run. -/
theorem run_bind_of_error {x : Scan α} {e : Error} (h : x.run.value = .error e)
    (f : α → Scan β) : (x >>= f).run = ⟨x.run.events, .error e⟩ := by
  ext : 1
  · rw [events_run_bind, h]
    exact List.append_nil _
  · rw [value_run_bind, h]; rfl

@[simp] theorem value_run_noting (x : Scan α) (n : Error → Notice) :
    (x.noting n).run.value = x.run.value := by
  unfold noting
  cases h : x.run.value <;> simp [h]

theorem run_noting_of_ok {x : Scan α} {a : α} (h : x.run.value = .ok a) (n : Error → Notice) :
    (x.noting n).run = x.run := by
  ext : 1
  · simp [noting, h]
  · exact value_run_noting x n

theorem run_noting_of_error {x : Scan α} {e : Error} (h : x.run.value = .error e)
    (n : Error → Notice) :
    (x.noting n).run = ⟨x.run.events ++ [.noticed (n e)], .error e⟩ := by
  ext : 1
  · simp [noting, h]
  · rw [value_run_noting, h]

end Scan

end DeviceModel
