import Mathlib.Algebra.Order.Group.Multiset
import Mathlib.Tactic.Abel
import Mathlib.Tactic.Lemma
import DeviceModel.Log.Logged

/-!
Events replayed on the objects that are alive.

Making an object adds it, releasing it takes away one that is there, and a release of what is
not alive stops the replay. So a replay that comes to an end shows that no object was released
twice or before it was made, and what it ends with is what is still alive.

`Turns` says this of an operation: with what it is handed alive at first, its events replay to
what it hands back.
-/

namespace DeviceModel

/-- An object as the log knows it. -/
abbrev Object := ObjectKind × String

namespace Event

def replay? (live : Multiset Object) : Event → Option (Multiset Object)
  | opened kind path => some ((kind, path) ::ₘ live)
  | closed kind path =>
    if (kind, path) ∈ live then some (live.erase (kind, path)) else none
  | asked _ _ | noticed _ => some live

end Event

def replay (live : Multiset Object) : List Event → Option (Multiset Object)
  | [] => some live
  | e :: es => (e.replay? live).bind fun m => replay m es

/-- The objects that are made in the course of some events. -/
def madeIn (es : List Event) : Multiset Object := es.filterMap Event.opened?

/-- The objects that are released in the course of some events. -/
def releasedIn (es : List Event) : Multiset Object := es.filterMap Event.closed?

@[simp] lemma replay_nil (m : Multiset Object) : replay m [] = some m := rfl
@[simp] lemma replay_opened (m : Multiset Object) (k : ObjectKind) (p : String)
    (es : List Event) : replay m (.opened k p :: es) = replay ((k, p) ::ₘ m) es := rfl
@[simp] lemma replay_asked (m : Multiset Object) (q : Query) (p : String) (es : List Event) :
    replay m (.asked q p :: es) = replay m es := rfl
@[simp] lemma replay_noticed (m : Multiset Object) (n : Notice) (es : List Event) :
    replay m (.noticed n :: es) = replay m es := rfl
@[simp] lemma replay_closed (m : Multiset Object) (k : ObjectKind) (p : String)
    (es : List Event) : replay ((k, p) ::ₘ m) (.closed k p :: es) = replay m es := by
  simp [replay, Event.replay?]

lemma replay_append (m : Multiset Object) (es fs : List Event) :
    replay m (es ++ fs) = (replay m es).bind fun n => replay n fs := by
  induction es generalizing m with
  | nil => rfl
  | cons e es ih =>
    simp only [List.cons_append, replay]
    cases e.replay? m with
    | none => rfl
    | some n => exact ih n

lemma replay_append_of {m n : Multiset Object} {es : List Event} (h : replay m es = some n)
    (fs : List Event) : replay m (es ++ fs) = replay n fs := by
  rw [replay_append, h]
  rfl

/-- Objects that the events do not concern may stand by. -/
theorem replay_frame {m n : Multiset Object} {es : List Event} (h : replay m es = some n)
    (f : Multiset Object) : replay (m + f) es = some (n + f) := by
  induction es generalizing m with
  | nil =>
    cases h
    rfl
  | cons e es ih =>
    rcases e with ⟨q, p⟩ | ⟨k, p⟩ | ⟨k, p⟩ | note
    · exact ih h
    · rw [replay_opened] at h ⊢
      rw [← Multiset.cons_add]
      exact ih h
    · by_cases hm : (k, p) ∈ m
      · obtain ⟨r, rfl⟩ := Multiset.exists_cons_of_mem hm
        rw [replay_closed] at h
        rw [Multiset.cons_add, replay_closed]
        exact ih h
      · simp [replay, Event.replay?, hm] at h
    · exact ih h

/-- Releases one after another, if each releases what it should. -/
lemma replay_flatMap {α : Type} {f : α → Multiset Object} {g : α → List Event} {xs : List α}
    (h : ∀ x ∈ xs, replay (f x) (g x) = some 0) :
    replay (xs.map f).sum (xs.flatMap g) = some 0 := by
  induction xs with
  | nil => rfl
  | cons x xs ih =>
    have hx := replay_frame (h x List.mem_cons_self) (xs.map f).sum
    rw [zero_add] at hx
    rw [List.map_cons, List.sum_cons, List.flatMap_cons, replay_append_of hx]
    exact ih fun y hy => h y (List.mem_cons_of_mem _ hy)

/-- What was alive and what is made is what is released and what is left. -/
theorem replay_balance {m n : Multiset Object} {es : List Event} (h : replay m es = some n) :
    m + madeIn es = releasedIn es + n := by
  induction es generalizing m with
  | nil =>
    cases h
    simp [madeIn, releasedIn]
  | cons e es ih =>
    rcases e with ⟨q, p⟩ | ⟨k, p⟩ | ⟨k, p⟩ | note
    · exact ih h
    · have hi := ih h
      have hm : madeIn (.opened k p :: es) = (k, p) ::ₘ madeIn es := rfl
      rw [hm, Multiset.add_cons, ← Multiset.cons_add]
      exact hi
    · by_cases hm : (k, p) ∈ m
      · obtain ⟨r, rfl⟩ := Multiset.exists_cons_of_mem hm
        rw [replay_closed] at h
        have hi := ih h
        have hr : releasedIn (.closed k p :: es) = (k, p) ::ₘ releasedIn es := rfl
        rw [hr, Multiset.cons_add, Multiset.cons_add]
        exact congrArg _ hi
      · simp [replay, Event.replay?, hm] at h
    · exact ih h

/-! ### Operations -/

namespace Logged

variable {α β : Type} {before : Multiset Object}

/-- With the objects `before` alive at first, the events replay to the objects `after`, which
the answer owns. -/
def Turns (before : Multiset Object) (x : Logged α) (after : α → Multiset Object) : Prop :=
  replay before x.events = some (after x.value)

lemma turns_pure (a : α) (after : α → Multiset Object) :
    Turns (after a) (pure a) after := rfl

/-- What is made comes to what was alive. -/
lemma turns_opened (kind : ObjectKind) (path : String) :
    Turns before (emit [.opened kind path]) fun _ => (kind, path) ::ₘ before := rfl

lemma turns_note (n : Notice) : Turns before (note n) fun _ => before := rfl

lemma Turns.bind {x : Logged α} {f : α → Logged β} {mid : α → Multiset Object}
    {after : β → Multiset Object} (hx : x.Turns before mid)
    (hf : ∀ a, (f a).Turns (mid a) after) : (x >>= f).Turns before after := by
  unfold Turns at *
  rw [events_bind, replay_append_of hx]
  exact hf x.value

lemma Turns.frame {x : Logged α} {after : α → Multiset Object} (h : x.Turns before after)
    (f : Multiset Object) : x.Turns (before + f) fun a => after a + f :=
  replay_frame h f

lemma Turns.congr {x : Logged α} {b : Multiset Object} {after after' : α → Multiset Object}
    (h : x.Turns before after) (hb : before = b) (ha : ∀ a, after a = after' a) :
    x.Turns b after' := by
  subst hb
  rw [Turns, ← ha]
  exact h

lemma Turns.map {x : Logged α} {f : α → β} {after : β → Multiset Object}
    (h : x.Turns before fun a => after (f a)) : (f <$> x).Turns before after := by
  unfold Turns at *
  rw [events_map]
  exact h

end Logged

namespace Scan

variable {α β : Type} {before : Multiset Object}

/-- Like `Logged.Turns`. What is alive after a failure is `failed`. -/
def Turns (before : Multiset Object) (x : Scan α) (after : α → Multiset Object)
    (failed : Multiset Object) : Prop :=
  Logged.Turns before x.run fun
    | .ok a => after a
    | .error _ => failed

lemma turns_pure (a : α) (after : α → Multiset Object) (failed : Multiset Object) :
    Turns (after a) (pure a) after failed := rfl

lemma turns_throw (e : Error) (after : α → Multiset Object) : Turns before (throw e) after before :=
  rfl

/-- After a refusal at the start everything is as before. -/
lemma turns_unless {c : Prop} [Decidable c] {e : Error} {f : PUnit → Scan α}
    {after : α → Multiset Object} (h : ¬ c → Turns before (f ⟨⟩) after before) :
    Turns before (if c then throw e >>= f else f ⟨⟩) after before := by
  by_cases hc : c
  · rw [if_pos hc]
    rfl
  · rw [if_neg hc]
    exact h hc

lemma turns_liftM (x : Except Error α) : Turns before (liftM x) (fun _ => before) before := by
  unfold Turns Logged.Turns
  rw [run_liftM]
  cases x <;> rfl

lemma turns_ask (query : Query) (path : String) (answer : Except Error α) :
    Turns before (ask query path answer) (fun _ => before) before := by
  unfold Turns Logged.Turns
  rw [run_ask]
  cases answer <;> rfl

/-- The same, seen from a caller that goes on after a failure. -/
lemma turns_run_ask (query : Query) (path : String) (answer : Except Error α) :
    Logged.Turns before (ask query path answer).run fun _ => before := rfl

lemma turns_emit {es : List Event} {after : Multiset Object} (h : replay before es = some after)
    (failed : Multiset Object) : Turns before (emit es) (fun _ => after) failed := by
  unfold Turns Logged.Turns
  rw [run_emit]
  exact h

lemma turns_opened (kind : ObjectKind) (path : String) (failed : Multiset Object) :
    Turns before (emit [.opened kind path]) (fun _ => (kind, path) ::ₘ before) failed :=
  turns_emit rfl failed

lemma turns_lift {x : Logged α} {after : α → Multiset Object} (h : x.Turns before after)
    (failed : Multiset Object) : Turns before (ExceptT.lift x) after failed := by
  refine Logged.Turns.map ?_
  exact h

lemma Turns.bind {x : Scan α} {f : α → Scan β} {mid : α → Multiset Object}
    {after : β → Multiset Object} {failed : Multiset Object} (hx : x.Turns before mid failed)
    (hf : ∀ a, (f a).Turns (mid a) after failed) : (x >>= f).Turns before after failed := by
  unfold Turns
  rw [ExceptT.run_bind]
  refine Logged.Turns.bind hx fun r => ?_
  cases r with
  | ok a => exact hf a
  | error e => exact Logged.turns_pure _ _

lemma Turns.noting {x : Scan α} {after : α → Multiset Object} {failed : Multiset Object}
    (h : x.Turns before after failed) (n : Error → Notice) :
    (x.noting n).Turns before after failed := by
  refine Logged.Turns.bind h fun r => ?_
  cases r with
  | ok a => exact Logged.turns_pure _ _
  | error e => exact (Logged.turns_note _).bind fun _ => Logged.turns_pure _ _

lemma Turns.congr {x : Scan α} {b : Multiset Object} {after after' : α → Multiset Object}
    {failed failed' : Multiset Object} (h : x.Turns before after failed) (hb : before = b)
    (ha : ∀ a, after a = after' a) (hf : failed = failed') : x.Turns b after' failed' :=
  Logged.Turns.congr h hb fun r => by
    cases r with
    | ok a => exact ha a
    | error e => exact hf

end Scan

end DeviceModel
