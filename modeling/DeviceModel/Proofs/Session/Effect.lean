import DeviceModel.Proofs.Ownership.Held

/-!
What a step of a session can do to its handles, said once.

A step leaves the handles alone, or fills one with something that was loaded or that the
session owned already, or empties one, or puts a directory back as it is after a read. What a
handle held is released when all is done, with the session as it then is.
-/

namespace DeviceModel.Session

variable (s : Session)

/-- What a step loads into a handle, if it loads anything. -/
def loaded? (sys : Mounted) : Step → Option Held
  | .load what _ => (loadHeld sys s.next what).run.value.toOption.map (·.1)
  | _ => none

/-- The handle that a step may change. -/
def target? : Step → Option String
  | .load _ into | .take _ _ _ into => some into
  | .readDirectory h | .readDirectories h | .drop h => some h
  | .look _ | .ask _ _ | .findBus _ | .buses | .classes => none

/-- The release of what a handle held, with the session as it is after. -/
def parting (h : String) (after : Session) : List Event :=
  ((s.held? h).map fun x => x.closing after.living.kept).getD []

def filled (h : String) (x : Held) (next : Serial) : Session := ⟨s.handles.put h x, next⟩

def dropped (h : String) : Session := ⟨s.handles.erase h, s.next⟩

lemma release_eq (h : String) : s.release h = ⟨s.parting h (s.dropped h), s.dropped h⟩ := by
  unfold release parting
  cases s.held? h <;> ext <;> simp [dropped]

lemma fill_eq (h : String) (x : Held) (next : Serial) :
    (s.fill h x next).events = s.parting h (s.filled h x next) ∧
      (s.fill h x next).value.1 = s.filled h x next := by
  unfold fill store
  rcases hx : s.held? h with _ | old
  · have hx' : ({ s with next := next } : Session).held? h = none := hx
    simp [hx', parting, hx, filled]
  · have hx' : ({ s with next := next } : Session).held? h = some old := hx
    simp [hx', parting, hx, filled]

/-- The steps that a session can take, with their events and the session after. -/
inductive Effect (sys : Mounted) : Step → List Event → Session → Prop
  | quiet {st : Step} {es : List Event} : s.loaded? sys st = none → replay 0 es = some 0 →
      Effect sys st es s
  | loads {what : Opening} {into : String} {x : Held} {next : Serial} :
      (loadHeld sys s.next what).run.value = .ok (x, next) →
      Effect sys (.load what into)
        ((loadHeld sys s.next what).run.events ++ s.parting into (s.filled into x next))
        (s.filled into x next)
  | takes {h : String} {role : Role} {name into : String} {x y : Held} : s.held? h = some x →
      part? s.living role name x = some (some y) →
      Effect sys (.take h role name into) (s.parting into (s.filled into y s.next))
        (s.filled into y s.next)
  | drops {h : String} : Effect sys (.drop h) (s.parting h (s.dropped h)) (s.dropped h)
  | reads {st : Step} {es : List Event} {h : String} {d d' : Directory} :
      s.loaded? sys st = none → target? st = some h → s.held? h = some (.directory d) →
      replay d.objects es = some d'.objects →
      Effect sys st es (s.filled h (.directory d') s.next)

variable (sys : Mounted)

lemma reply_turns {α : Type} {x : Scan α} (h : x.Turns 0 (fun _ => 0) 0) (f : α → Value) :
    (x.reply f).Turns 0 fun _ => 0 := by
  refine Logged.Turns.bind h fun r => ?_
  cases r <;> exact Logged.turns_pure _ _

lemma ask_turns (b : Backend) (path : String) (query : Query) :
    (ask b path query).Turns 0 fun _ => 0 := by
  cases query with
  | stat => exact reply_turns (Scan.turns_ask _ _ _) _
  | readDir => exact reply_turns (Directory.askDir_turns b 0 path) _
  | readLink => exact reply_turns (Scan.turns_ask _ _ _) _
  | readAttr => exact reply_turns (Scan.turns_ask _ _ _) _
  | realPath => exact reply_turns (Scan.turns_ask _ _ _) _

lemma readOnce_turns (b : Backend) (d : Directory) :
    (readOnce b d).Turns d.objects fun r => r.1.objects := by
  refine Logged.Turns.bind (Directory.read_turns b d) fun r => ?_
  cases r with
  | ok d' => exact Logged.turns_pure (d', Except.ok ()) fun r => r.1.objects
  | error e => exact Logged.turns_pure (d, Except.error e) fun r => r.1.objects

/-- A reply after which the session is as it was. -/
lemma effect_reply {st : Step} (h : s.loaded? sys st = none) {x : Logged Reply}
    (hx : x.Turns 0 fun _ => 0) :
    Effect s sys st (x >>= fun r => pure (s, r) : Logged (Session × Reply)).events s := by
  refine .quiet h ?_
  rw [Logged.events_bind, Logged.events_pure, List.append_nil]
  exact hx

lemma effect_load (what : Opening) (into : String) :
    Effect s sys (.load what into) (s.load sys what into).events
      (s.load sys what into).value.1 := by
  unfold load
  rcases hr : (loadHeld sys s.next what).run.value with e | ⟨x, next⟩
  · have hes := loadHeld_turns sys s.next what
    unfold Scan.Turns Logged.Turns at hes
    rw [hr] at hes
    simp only [Logged.events_bind, Logged.value_bind, hr, Logged.events_pure, List.append_nil,
      Logged.value_pure]
    exact .quiet (by simp [loaded?, hr, Except.toOption]) hes
  · obtain ⟨hes, hs⟩ := s.fill_eq into x next
    simp only [Logged.events_bind, Logged.value_bind, hr, hes, hs]
    exact .loads hr

lemma effect_take (h : String) (role : Role) (name into : String) :
    Effect s sys (.take h role name into) (s.take h role name into).events
      (s.take h role name into).value.1 := by
  unfold take
  rcases hx : s.held? h with _ | x
  · exact .quiet rfl rfl
  · rcases hp : part? s.living role name x with _ | _ | y
    · simp only [hp]
      exact .quiet rfl rfl
    · simp only [hp]
      exact .quiet rfl rfl
    · obtain ⟨hes, hs⟩ := s.fill_eq into y s.next
      simp only [hp, hes, hs]
      exact .takes hx hp

lemma effect_readWith {st : Step} {h : String} (hst : s.loaded? sys st = none)
    (ht : target? st = some h) {f : Directory → Logged (Directory × Except Error Unit)}
    (hf : ∀ d, (f d).Turns d.objects fun r => r.1.objects) :
    Effect s sys st (s.readWith h f).events (s.readWith h f).value.1 := by
  unfold readWith
  rcases hx : s.held? h with _ | x
  · exact .quiet hst rfl
  · cases x with
    | directory d =>
      simp only [Logged.events_bind, Logged.value_bind, Logged.events_pure, List.append_nil,
        Logged.value_pure]
      exact .reads hst ht hx (hf d)
    | device _ | driver _ | classDevice _ | deviceClass _ => exact .quiet hst rfl

/-- Whatever a step does is one of the effects. -/
theorem effect_step (st : Step) :
    Effect s sys st (s.step sys st).events (s.step sys st).value.1 := by
  cases st with
  | look v => exact .quiet rfl rfl
  | ask query path => exact effect_reply s sys rfl (ask_turns _ _ _)
  | findBus busId => exact effect_reply s sys rfl (reply_turns (sys.findBus_turns busId) _)
  | buses => exact effect_reply s sys rfl (reply_turns (sys.subsystem_turns "bus") _)
  | classes => exact effect_reply s sys rfl (reply_turns (sys.subsystem_turns "class") _)
  | load what into => exact effect_load s sys what into
  | readDirectory h => exact effect_readWith s sys rfl rfl (readOnce_turns _)
  | readDirectories h => exact effect_readWith s sys rfl rfl (Directory.readAll_turns _)
  | take h role name into => exact effect_take s sys h role name into
  | drop h =>
    have hd : s.step sys (.drop h) = s.release h >>= fun after =>
        pure (after, { outcome := .ok (.flag (s.held? h).isSome) }) := rfl
    rw [hd, release_eq]
    simp only [Logged.events_bind, Logged.value_bind, Logged.events_pure, List.append_nil,
      Logged.value_pure]
    exact .drops

end DeviceModel.Session
