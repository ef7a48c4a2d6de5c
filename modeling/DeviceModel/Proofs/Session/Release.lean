import DeviceModel.Proofs.Session.Origin

/-!
What is alive in a session, and when it is released.

Alive is what the handles own: what each owns alone, and once each device and driver that has
an owner at all. A step touches only what has its last owner before it or its first one after
it; all else stands by. So the objects made and the objects released balance at the end.
-/

namespace DeviceModel.Session

open Shared (pool only)

/-- The handles that a step on `t` leaves alone. -/
def others (s : Session) (t : Option String) : List Held :=
  (s.handles.restrict fun k => some k ≠ t).values

/-- What the handle that a step changes owns alone. -/
def ownAt (s : Session) (t : Option String) : Multiset Object :=
  ((t.bind s.held?).map Held.ownObjects).getD 0

/-- All that the handles of a session own. -/
def owned (s : Session) : Multiset Object :=
  (s.handles.values.map Held.ownObjects).sum +
    (pool Device.objects s.living.devices + pool Driver.objects s.living.drivers)

/-- What is owned in both of two sessions, of which a step on `t` leads from one to the
other. -/
def common (s after : Session) (t : Option String) : Multiset Object :=
  ((s.others t).map Held.ownObjects).sum +
    (pool Device.objects (only (after.living.kept .device) s.living.devices) +
      pool Driver.objects (only (after.living.kept .driver) s.living.drivers))

/-- What is owned in the session `s` and has no owner in the other. -/
def apart (s other : Session) (t : Option String) : Multiset Object :=
  s.ownAt t +
    (pool Device.objects (only (fun i => !other.living.kept .device i) s.living.devices) +
      pool Driver.objects (only (fun i => !other.living.kept .driver i) s.living.drivers))

/-- The events of a step on `t` from `s` to `after` release all that loses its last owner and
make all that gets its first, and touch nothing that has an owner all along. -/
structure Settles (s : Session) (t : Option String) (es : List Event) (after : Session) :
    Prop where
  owned_before : s.owned = s.common after t + s.apart after t
  owned_after : after.owned = s.common after t + after.apart s t
  replayed : replay (s.apart after t) es = some (after.apart s t)
  /-- A device that loses its last owner is released in one piece. -/
  device : ∀ d ∈ s.living.devices, after.living.kept .device d.serial = false →
    d.object.closing <:+: es
  driver : ∀ d ∈ s.living.drivers, after.living.kept .driver d.serial = false →
    d.object.closing <:+: es

/-! ### Who keeps what -/

lemma others_some (s : Session) (h : String) : s.others (some h) = (s.handles.erase h).values := by
  unfold others Table.erase
  congr 2
  funext k
  simp

/-- The handle that a step changes, and the others. -/
lemma values_perm (s : Session) (t : Option String) :
    s.handles.values.Perm ((t.bind s.held?).toList ++ s.others t) := by
  rcases t with _ | h
  · have hall : s.others none = s.handles.values := by
      unfold others Table.values Table.restrict
      simp
    rw [hall]
    exact List.Perm.refl _
  · rw [others_some]
    rcases hx : s.held? h with _ | x
    · have he := Table.erase_of_get?_eq_none hx
      rw [Table.values, Table.values, he]
      simp [hx]
    · simpa [hx] using Table.values_perm_of_get? hx

lemma own_add (s : Session) (t : Option String) :
    (s.handles.values.map Held.ownObjects).sum =
      ((s.others t).map Held.ownObjects).sum + s.ownAt t := by
  rw [((s.values_perm t).map _).sum_eq, List.map_append, List.sum_append, add_comm, ownAt]
  cases t.bind s.held? <;> simp

lemma owned_eq (s after : Session) (t : Option String) :
    s.owned = s.common after t + s.apart after t := by
  unfold owned common apart
  rw [s.own_add t, ← Shared.pool_only_add Device.objects (after.living.kept .device),
    ← Shared.pool_only_add Driver.objects (after.living.kept .driver)]
  abel

lemma common_comm {s after : Session} {t : Option String} (ho : after.others t = s.others t)
    (hc : ∀ role, Shared.Coherent (s.living.shared role ++ after.living.shared role)) :
    s.common after t = after.common s t := by
  have hboth (role : Role) :
      pool role.objects (only (after.living.kept role) (s.living.shared role)) =
        pool role.objects (only (s.living.kept role) (after.living.shared role)) :=
    Shared.pool_only_comm _ (hc role) (fun _ => Living.kept_iff) fun _ => Living.kept_iff
  unfold common
  rw [ho]
  exact congrArg _ (congrArg₂ _ (hboth .device) (hboth .driver))

lemma mem_living_iff (s : Session) (t : Option String) {role : Role} {d : Shared role.Obj} :
    d ∈ s.living.shared role ↔
      (∃ x ∈ t.bind s.held?, d ∈ x.shared role) ∨ ∃ x ∈ s.others t, d ∈ x.shared role := by
  have hm (x : Held) := (s.values_perm t).mem_iff (a := x)
  simp only [mem_living_shared, hm, List.mem_append, Option.mem_toList, Option.mem_def,
    or_and_right, exists_or]

/-- What is owned by those that play a role in `s` and have no owner in the other session. -/
def lost (s other : Session) (role : Role) : Multiset Object :=
  pool role.objects (only (fun i => !other.living.kept role i) (s.living.shared role))

lemma apart_eq (s other : Session) (t : Option String) :
    s.apart other t = s.ownAt t + (s.lost other .device + s.lost other .driver) := rfl

/-! ### The release of what a handle held -/

section

variable {s after : Session} {h : String}

/-- What another handle holds as well is kept. -/
lemma mem_shared_of_lost (ho : s.others (some h) ⊆ after.handles.values) {role : Role}
    {d : Shared role.Obj} (hd : d ∈ s.living.shared role)
    (hk : after.living.kept role d.serial = false) : ∃ x ∈ s.held? h, d ∈ x.shared role := by
  rcases (s.mem_living_iff (some h)).1 hd with hx | ⟨x, hx, hdx⟩
  · exact hx
  · have hkept := Living.kept_iff.2 ⟨d, mem_living_shared.2 ⟨x, ho hx, hdx⟩, rfl⟩
    rw [hkept] at hk
    cases hk

lemma parting_of_held? {x : Held} (hx : s.held? h = some x) :
    s.parting h after = x.closing after.living.kept := by
  rw [parting, hx]
  rfl

lemma infix_parting (ho : s.others (some h) ⊆ after.handles.values) (role : Role)
    {d : Shared role.Obj} (hd : d ∈ s.living.shared role)
    (hk : after.living.kept role d.serial = false) :
    role.closing d.object <:+: s.parting h after := by
  obtain ⟨x, hx, hdx⟩ := mem_shared_of_lost ho hd hk
  rw [parting_of_held? hx]
  exact Held.infix_closing hdx hk

/-- What has no owner after was owned by that handle alone. -/
lemma lost_of_held? {past : List Held} (ht : Traced past s)
    (ho : s.others (some h) ⊆ after.handles.values) {x : Held} (hx : s.held? h = some x)
    (role : Role) :
    s.lost after role = Shared.loose role.objects (after.living.kept role) (x.shared role) := by
  refine Shared.pool_eq_loose _ ((ht.coherent role).subset fun d hd => (Shared.mem_only.1 hd).1)
    ((ht.held x (mem_values_of_held? hx)).nodup role) fun d => ?_
  rw [Shared.mem_only, Bool.not_eq_true']
  refine and_congr_left fun hk => ⟨fun hd => ?_, fun hd => ?_⟩
  · obtain ⟨y, hy, hdy⟩ := mem_shared_of_lost ho hd hk
    cases hx.symm.trans hy
    exact hdy
  · exact mem_living_shared.2 ⟨x, mem_values_of_held? hx, hd⟩

/-- An empty handle has nothing to lose. -/
lemma lost_of_empty (ho : s.others (some h) ⊆ after.handles.values) (hx : s.held? h = none)
    (role : Role) : s.lost after role = 0 := by
  refine Shared.pool_only_not_eq_zero _ fun d hd => ?_
  by_contra hk
  obtain ⟨x, hx', -⟩ := mem_shared_of_lost ho hd (Bool.eq_false_iff.2 hk)
  rw [hx] at hx'
  cases hx'

/-- What has no owner after is just what goes with the handle. -/
lemma replay_parting {past : List Held} (ht : Traced past s)
    (ho : s.others (some h) ⊆ after.handles.values) :
    replay (s.apart after (some h)) (s.parting h after) = some 0 := by
  rw [apart_eq]
  rcases hx : s.held? h with _ | x
  · rw [lost_of_empty ho hx, lost_of_empty ho hx]
    simp [ownAt, parting, hx]
  · have hown : s.ownAt (some h) = x.ownObjects := by simp [ownAt, hx]
    rw [lost_of_held? ht ho hx, lost_of_held? ht ho hx, parting_of_held? hx, hown]
    exact x.replay_closing _

end

/-! ### One step -/

/-- With an owner for every shared object, only what the handle itself owns is apart. -/
lemma apart_of_kept {s other : Session} {t : Option String}
    (h : ∀ role, s.living.shared role ⊆ other.living.shared role) :
    s.apart other t = s.ownAt t := by
  have hzero (role : Role) : s.lost other role = 0 :=
    Shared.pool_only_not_eq_zero _ fun d hd => Living.kept_iff.2 ⟨d, h role hd, rfl⟩
  rw [apart_eq, hzero, hzero, add_zero, add_zero]

lemma others_filled (s : Session) (h : String) (x : Held) (next : Serial) :
    (s.filled h x next).others (some h) = s.others (some h) := by
  rw [others_some, others_some]
  exact congrArg (List.map (·.2)) (s.handles.pairs_erase_put h x)

lemma others_dropped (s : Session) (h : String) :
    (s.dropped h).others (some h) = s.others (some h) := by
  rw [others_some, others_some]
  exact congrArg (List.map (·.2)) (s.handles.pairs_erase_erase h)

lemma held?_filled (s : Session) (h : String) (x : Held) (next : Serial) :
    (s.filled h x next).held? h = some x := by
  change (s.handles.put h x).get? h = some x
  rw [Table.get?_put, if_pos rfl]

lemma ownAt_filled (s : Session) (h : String) (x : Held) (next : Serial) :
    (s.filled h x next).ownAt (some h) = x.ownObjects := by
  simp [ownAt, held?_filled]

lemma others_subset_filled (s : Session) (h : String) (x : Held) (next : Serial) :
    s.others (some h) ⊆ (s.filled h x next).handles.values := by
  rw [others_some]
  exact List.subset_cons_self _ _

lemma others_subset_dropped (s : Session) (h : String) :
    s.others (some h) ⊆ (s.dropped h).handles.values := by
  rw [others_some]
  exact List.Subset.refl _

section

variable {past more : List Held} {s after : Session} {t : Option String} {h : String}
  {es : List Event}

lemma owned_after_eq (ht : Traced past s) (ht' : Traced (past ++ more) after)
    (ho : after.others t = s.others t) : after.owned = s.common after t + after.apart s t := by
  rw [common_comm ho (ht.coherent_append ht')]
  exact owned_eq _ _ _

/-- A step that leaves all shared objects where they are. -/
lemma Settles.of_kept (ht : Traced past s) (ht' : Traced (past ++ more) after)
    (ho : after.others t = s.others t)
    (hd : ∀ role, s.living.shared role ⊆ after.living.shared role)
    (hd' : ∀ role, after.living.shared role ⊆ s.living.shared role)
    (hes : replay (s.ownAt t) es = some (after.ownAt t)) : Settles s t es after := by
  have hlost (role : Role) {d : Shared role.Obj} (h : d ∈ s.living.shared role)
      (hk : after.living.kept role d.serial = false) : False := by
    rw [Living.kept_iff.2 ⟨d, hd role h, rfl⟩] at hk
    cases hk
  refine ⟨owned_eq _ _ _, owned_after_eq ht ht' ho, ?_, fun d h hk => ?_, fun r h hk => ?_⟩
  · rw [apart_of_kept hd, apart_of_kept hd']
    exact hes
  · exact (hlost .device h hk).elim
  · exact (hlost .driver h hk).elim

/-- A step that releases what its handle held, after making what is new. -/
lemma Settles.of_parting (ht : Traced past s) (ht' : Traced (past ++ more) after)
    (ho : after.others (some h) = s.others (some h))
    (hsub : s.others (some h) ⊆ after.handles.values)
    (hes : replay 0 es = some (after.apart s (some h))) :
    Settles s (some h) (es ++ s.parting h after) after where
  owned_before := owned_eq _ _ _
  owned_after := owned_after_eq ht ht' ho
  replayed := by
    -- first the new is made while the old is still there, then the old goes
    have hmade := replay_frame hes (s.apart after (some h))
    have hlost := replay_frame (replay_parting ht hsub) (after.apart s (some h))
    rw [zero_add] at hmade hlost
    rw [replay_append_of hmade, add_comm]
    exact hlost
  device d hd hk := (infix_parting hsub .device hd hk).trans
    (List.suffix_append _ _).isInfix
  driver r hr hk := (infix_parting hsub .driver hr hk).trans
    (List.suffix_append _ _).isInfix

end

lemma mem_living_filled {s : Session} {h : String} {x : Held} {next : Serial} {role : Role}
    {d : Shared role.Obj} : d ∈ (s.filled h x next).living.shared role ↔
      d ∈ x.shared role ∨ ∃ y ∈ s.others (some h), d ∈ y.shared role := by
  simp [mem_living_iff _ (some h), held?_filled, others_filled]

/-- What is loaded is new, so it is all that the session then owns beyond what it owned. -/
lemma apart_filled_of_loaded {past : List Held} {s : Session} {sys : Mounted} {what : Opening}
    {x : Held} {next : Serial} (ht : Traced past s)
    (hx : (loadHeld sys s.next what).run.value = .ok (x, next)) (into : String) :
    (s.filled into x next).apart s (some into) = x.objects := by
  have hn := (numbered_of_loadHeld hx).2
  have hfrom := Held.from_ends hn
  -- nothing of it was there before: its numbers are all new
  have hlost (role : Role) : (s.filled into x next).lost s role =
      Shared.loose role.objects (fun _ => false) (x.shared role) := by
    refine Shared.pool_eq_loose _ (((ht.loads hx into).coherent role).subset fun d hd =>
      (Shared.mem_only.1 hd).1) (hfrom.nodup role) fun d => ?_
    rw [Shared.mem_only, Bool.not_eq_true', mem_living_filled, and_iff_left rfl]
    constructor
    · rintro ⟨hd | hd, hk⟩
      · exact hd
      · rw [Living.kept_iff.2 ⟨d, (s.mem_living_iff (some into)).2 (.inr hd), rfl⟩] at hk
        cases hk
    · intro hd
      refine ⟨.inl hd, Bool.eq_false_iff.2 fun hk => ?_⟩
      obtain ⟨e, he, hs⟩ := Living.kept_iff.1 hk
      obtain ⟨p, hp, hpd⟩ := hfrom.exists_end hd
      have hle := (hn.range hp (Bound.serial_mem hpd)).1
      exact absurd (hs ▸ ht.serial_lt role he) hle.not_gt
  rw [apart_eq, ownAt_filled, hlost, hlost]
  rfl

/-- What was taken had an owner before. -/
lemma apart_filled_of_taken {s : Session} {h : String} {role : Role} {name : String}
    {x y : Held} (hx : s.held? h = some x)
    (hy : part? s.living role name x = some (some y)) (into : String) :
    (s.filled into y s.next).apart s (some into) = 0 := by
  obtain ⟨d, hd, rfl⟩ := part?_living hx hy
  rw [apart_of_kept fun r e he => ?_, ownAt_filled]
  · cases role <;> rfl
  · rcases mem_living_filled.1 he with he | he
    · exact Held.shared_single_subset hd r he
    · exact (s.mem_living_iff (some into)).2 (.inr he)

lemma apart_dropped (s : Session) (h : String) : (s.dropped h).apart s (some h) = 0 := by
  have hnone : (s.dropped h).held? h = none := by
    change (s.handles.erase h).get? h = none
    rw [Table.get?_erase, if_pos rfl]
  rw [apart_of_kept fun role d hd => ?_]
  · simp [ownAt, hnone]
  · obtain ⟨x, hx, hdx⟩ := mem_living_shared.1 hd
    exact mem_living_shared.2 ⟨x, Table.mem_values_of_mem_erase hx, hdx⟩

/-- Taking a handle out of the session. -/
lemma settles_dropped {past : List Held} {s : Session} (ht : Traced past s) (h : String) :
    Settles s (some h) (s.parting h (s.dropped h)) (s.dropped h) := by
  have ht' : Traced (past ++ []) (s.dropped h) := by
    rw [List.append_nil]
    exact ht.dropped h
  change Settles s (some h) ([] ++ _) _
  refine .of_parting ht ht' (others_dropped s h) (others_subset_dropped s h) ?_
  rw [apart_dropped]
  rfl

/-- **One step** settles what it changes. -/
theorem Effect.settles {past : List Held} {s after : Session} {sys : Mounted} {st : Step}
    {es : List Event} (he : Effect s sys st es after) (ht : Traced past s) :
    Settles s (target? st) es after := by
  have ht' := he.traced ht
  cases he with
  | quiet _ hes =>
    refine .of_kept ht ht' rfl (fun _ _ => id) (fun _ _ => id) ?_
    have hframe := replay_frame hes (s.ownAt (target? st))
    rwa [zero_add] at hframe
  | @loads what into x next hx =>
    refine .of_parting ht ht' (others_filled ..) (others_subset_filled ..) ?_
    -- a load leaves alive just what it hands out
    have hes := loadHeld_turns sys s.next what
    unfold Scan.Turns Logged.Turns at hes
    rw [apart_filled_of_loaded ht hx, hes, hx]
  | takes hx hy =>
    change Settles s _ ([] ++ _) _
    refine .of_parting ht ht' (others_filled ..) (others_subset_filled ..) ?_
    rw [apart_filled_of_taken hx hy]
    rfl
  | drops => exact settles_dropped ht _
  | @reads _ _ h d d' _ hh hd hes =>
    rw [hh]
    have hown : s.ownAt (some h) = d.objects := by simp [ownAt, hd, Held.ownObjects]
    -- a directory shares nothing, so the others own what they did
    have hsame (role : Role) (e : Shared role.Obj) :
        e ∈ (s.filled h (.directory d') s.next).living.shared role ↔ e ∈ s.living.shared role := by
      rw [mem_living_filled, s.mem_living_iff (some h)]
      simp [hd, Held.mem_shared, Held.ends]
    refine .of_kept ht ht' (others_filled ..) (fun role e => (hsame role e).2)
      (fun role e => (hsame role e).1) ?_
    rw [hown, ownAt_filled]
    exact hes

/-! ### Whole sessions -/

lemma Settles.replay_owned {s after : Session} {t : Option String} {es : List Event}
    (h : Settles s t es after) : replay s.owned es = some after.owned := by
  rw [h.owned_before, h.owned_after, add_comm, replay_frame h.replayed, add_comm]

lemma step_settles {past : List Held} {s : Session} (ht : Traced past s) (sys : Mounted)
    (st : Step) : Settles s (target? st) (s.step sys st).events (s.step sys st).value.1 :=
  (effect_step s sys st).settles ht

lemma replay_run {past : List Held} {s : Session} (ht : Traced past s)
    (steps : List (Mounted × Step)) :
    replay s.owned (s.run steps).events = some (s.run steps).value.owned := by
  induction steps generalizing past s with
  | nil => rfl
  | cons x steps ih =>
    obtain ⟨sys, st⟩ := x
    rw [run_cons, Logged.events_bind, replay_append_of (step_settles ht sys st).replay_owned]
    exact ih ((effect_step s sys st).traced ht)

lemma release_settles {past : List Held} {s : Session} (ht : Traced past s) (h : String) :
    Settles s (some h) (s.release h).events (s.release h).value := by
  rw [release_eq]
  exact settles_dropped ht h

lemma replay_releaseAll {past : List Held} {s : Session} (ht : Traced past s)
    (hs : List String) :
    replay s.owned (s.releaseAll hs).events = some (s.releaseAll hs).value.owned := by
  induction hs generalizing s with
  | nil => rfl
  | cons h hs ih =>
    rw [releaseAll_cons, Logged.events_bind,
      replay_append_of (release_settles ht h).replay_owned]
    refine ih ?_
    rw [release_eq]
    exact ht.dropped h

lemma pairs_releaseAll (s : Session) (hs : List String) :
    (s.releaseAll hs).value.handles.pairs = s.handles.pairs.filter (·.1 ∉ hs) := by
  induction hs generalizing s with
  | nil => simp
  | cons h hs ih =>
    rw [releaseAll_cons, Logged.value_bind, ih, release_eq]
    change (s.handles.pairs.filter (·.1 ≠ h)).filter (·.1 ∉ hs) = _
    rw [List.filter_filter]
    refine List.filter_congr fun x _ => ?_
    simp [Bool.and_comm]

/-- Nothing is left in a session that is finished. -/
lemma values_finish (s : Session) : s.finish.value.handles.values = [] := by
  have hp : s.finish.value.handles.pairs = [] := by
    refine (pairs_releaseAll s _).trans (List.filter_eq_nil_iff.2 fun x hx => ?_)
    have hk : x.1 ∈ s.handles.keys := List.mem_map_of_mem hx
    simpa using hk
  rw [Table.values, hp]
  rfl

lemma owned_of_values_eq_nil {s : Session} (h : s.handles.values = []) : s.owned = 0 := by
  have hl : s.living = ⟨[], []⟩ := by
    rw [living, h]
    rfl
  rw [owned, h, hl]
  rfl

/-- **Every object is released once**, by whoever owned it last. After any steps what has been
made and not yet released is what the handles own; each further step, and each release at the
end, touches only what loses its last owner by it or gets its first; and once the session is
finished, what was made is what was released. -/
theorem run_releases (steps : List (Mounted × Step)) :
    replay 0 (empty.run steps).events = some (empty.run steps).value.owned ∧
      (∀ sys st, Settles (empty.run steps).value (target? st)
        ((empty.run steps).value.step sys st).events
        ((empty.run steps).value.step sys st).value.1) ∧
      (∀ h, Settles (empty.run steps).value (some h) ((empty.run steps).value.release h).events
        ((empty.run steps).value.release h).value) ∧
      replay 0 (empty.run steps >>= finish).events = some 0 ∧
      madeIn (empty.run steps >>= finish).events =
        releasedIn (empty.run steps >>= finish).events := by
  have ht : Traced (empty.loadedIn steps) (empty.run steps).value := traced_run .empty steps
  have hempty : empty.owned = 0 := owned_of_values_eq_nil rfl
  have hrun : replay 0 (empty.run steps).events = some (empty.run steps).value.owned := by
    rw [← hempty]
    exact replay_run .empty steps
  have hfinish : replay 0 (empty.run steps >>= finish).events = some 0 := by
    rw [Logged.events_bind, replay_append_of hrun]
    exact (replay_releaseAll ht _).trans
      (congrArg some (owned_of_values_eq_nil (values_finish _)))
  refine ⟨hrun, step_settles ht, release_settles ht, hfinish, ?_⟩
  simpa using replay_balance hfinish

end DeviceModel.Session
