/-
The store is a finite map from handles to records.

The changes of records are three events: a record is placed, it is written to, it is
freed.  On the map each concerns the entry of its handle alone (`Event.act`), and carrying
out a command in the store is carrying out its events on the map (`entries_run`).

A handle is placed once, so its entry is the fresh record with the writes made through
the handle, until it is freed (`minted_id_refines`).
-/
import DesignStore.Proofs.Entry
import DesignStore.Proofs.Minting

namespace DesignStore

inductive Event where
  | placed (k : RecordKind) (t : ObjectType) (id : ObjectId) (owner : ObjectIndex)
  | written (id : ObjectId) (c : Change)
  | freed (id : ObjectId)

def Event.act (m : ObjectId → Option Entry) : Event → ObjectId → Option Entry
  | .placed k t id owner => onEntry id (fun _ => some (Entry.fresh k t id owner)) m
  | .written id c => onEntry id (Option.map (Entry.change c)) m
  | .freed id => onEntry id (fun _ => none) m

/-! ## The events of a command -/

/-- What a command does to records, by the state it is carried out in and its answer. -/
def Command.events (db : Database) : Command → List Event
  | .create k t owner =>
    match Database.create k t owner db with
    | .ok id _ => [.placed k t id ((db.ownerIndexFor? owner).getD ObjectIndex.invalid)]
    | .error _ _ => []
  | .appendId none owner value =>
    match Database.create .ids .array owner db with
    | .ok id _ =>
      [.placed .ids .array id ((db.ownerIndexFor? owner).getD ObjectIndex.invalid),
        .written id (Change.body .ids (·.reserve Database.defaultArrayCapacity)),
        .written id (Change.body .ids (·.push value))]
    | .error _ _ => []
  | .appendId (some array) _ value => [.written array (Change.body .ids (·.push value))]
  | .write k id f => [.written id (Change.write k f)]
  | .writeHeader id f => [.written id (Change.header f)]
  | .editHeader id e => [.written id (Change.header e.perform)]
  | .setOwner id owner =>
    match db.ownerIndexFor? owner with
    | some index => if owner.isNull then [] else [.written id (Change.header (·.setOwner index))]
    | none => []
  | .destroy id =>
    match (Database.destroy id db : EStateM.Result (Failure DbError) _ _) with
    | .ok true _ => [.freed id]
    | _ => []
  | _ => []

/-- The commands the map is about: records are created, written to without losing their
status, given other owners, put in arrays, and destroyed if they own no scope. -/
def Command.Plain (db : Database) : Command → Prop
  | .create _ _ _ | .setOwner _ _ | .appendId _ _ _ => True
  | .write k id f => ∀ x, db.resolve k id = .ok (some x) → (f x).isValid = true
  | .writeHeader id f => ∀ hd, db.header? id = some hd → (f hd).isValid = true
  | .editHeader id e => ∀ hd, db.header? id = some hd → (e.perform hd).isValid = true
  | .destroy id => db.registry.isScopeOwner id = false
  | _ => False

def PlainRun (db : Database) : List Command → Prop
  | [] => True
  | c :: cmds => c.Plain db ∧ PlainRun (after c.perform db) cmds

def runEvents (db : Database) : List Command → List Event
  | [] => []
  | c :: cmds => c.events db ++ runEvents (after c.perform db) cmds

def placedIds (events : List Event) : List ObjectId :=
  events.filterMap fun
    | .placed _ _ id _ => some id
    | _ => none

theorem placedIds_append (e e' : List Event) : placedIds (e ++ e') = placedIds e ++ placedIds e' :=
  List.filterMap_append

theorem mem_placedIds {events : List Event} {id : ObjectId} :
    id ∈ placedIds events ↔ ∃ k t owner, Event.placed k t id owner ∈ events := by
  simp only [placedIds, List.mem_filterMap]
  constructor
  · rintro ⟨e, he, hid⟩
    cases e with
    | placed k t id' owner =>
      cases hid
      exact ⟨k, t, owner, he⟩
    | written id' c => contradiction
    | freed id' => contradiction
  · rintro ⟨k, t, owner, he⟩
    exact ⟨_, he, rfl⟩

/-- The store plays the events on the map.  Handles that are placed were not given out
before. -/
structure Plays (db db' : Database) (events : List Event) : Prop where
  evolves : Registry.Evolves db.registry db'.registry
  entries : db'.registry.stored? = events.foldl Event.act db.registry.stored?
  nodup : (placedIds events).Nodup
  fresh : ∀ id ∈ placedIds events, ¬ db.registry.Spent id
  holds : ∀ {k t id owner}, Event.placed k t id owner ∈ events →
    ∃ m : Minting, m.id = id ∧ m.kind = k ∧ m.Holds db'.registry

namespace Plays

variable {db db' db'' : Database} {e e' : List Event}

theorem refl (h : db.registry.Sound) : Plays db db [] where
  evolves := Registry.Evolves.refl h
  entries := rfl
  nodup := List.nodup_nil
  fresh := by simp [placedIds]
  holds := by simp

theorem trans (hr : db.registry.Sound) (h : Plays db db' e) (h' : Plays db' db'' e') :
    Plays db db'' (e ++ e') where
  evolves := h.evolves.trans hr h'.evolves
  entries := by rw [List.foldl_append, ← h.entries, h'.entries]
  nodup := by
    rw [placedIds_append, List.nodup_append]
    refine ⟨h.nodup, h'.nodup, fun id hid id' hid' heq => ?_⟩
    obtain ⟨k, t, owner, he⟩ := mem_placedIds.1 hid
    obtain ⟨m, rfl, _, hm⟩ := h.holds he
    exact h'.fresh id' hid' (heq ▸ hm.spent)
  fresh := by
    intro id hid hs
    rw [placedIds_append, List.mem_append] at hid
    rcases hid with hid | hid
    · exact h.fresh id hid hs
    · exact h'.fresh id hid (hs.mono h.evolves)
  holds := by
    intro k t id owner hmem
    rcases List.mem_append.1 hmem with hmem | hmem
    · obtain ⟨m, hid, hk, hm⟩ := h.holds hmem
      exact ⟨m, hid, hk, hm.mono h'.evolves⟩
    · exact h'.holds hmem

theorem of_write {id : ObjectId} {c : Change}
    (h : Registry.Touches id c db.registry db'.registry)
    (hc : ∀ o, db.registry.record? id = some o → o.isValid = true →
      (c o.kind o.record).isValid = true) : Plays db db' [.written id c] where
  evolves := h.evolves
  entries := h.stored? hc
  nodup := List.nodup_nil
  fresh := by simp [placedIds]
  holds := by simp

theorem of_free {id : ObjectId} (h : Registry.Touches id Change.clear db.registry db'.registry) :
    Plays db db' [.freed id] where
  evolves := h.evolves
  entries := h.stored?_of_clear
  nodup := List.nodup_nil
  fresh := by simp [placedIds]
  holds := by simp

theorem of_dead {id : ObjectId} {c : Change}
    (h : Registry.Touches id c db.registry db'.registry) (hn : ¬ db.registry.Live id) :
    Plays db db' [] where
  evolves := h.evolves
  entries := by
    rw [h.stored? fun o ho hv => absurd ⟨o, ho, hv⟩ hn]
    funext j
    simp only [onEntry, List.foldl_nil]
    by_cases hj : j = id
    · rw [if_pos hj, hj, Registry.stored?_eq_none_iff.2 hn]
      rfl
    · rw [if_neg hj]
  nodup := List.nodup_nil
  fresh := by simp [placedIds]
  holds := by simp

/-- Creating a record places it and writes the position of its owner to it. -/
theorem of_create (h : db.registry.Sound) (k : RecordKind) (t : ObjectType) (owner : ObjectId) :
    (∃ e, Database.create k t owner db = .error e db) ∨
      ∃ id db', Database.create k t owner db = .ok id db' ∧
        Plays db db' [.placed k t id ((db.ownerIndexFor? owner).getD ObjectIndex.invalid)] ∧
        ∃ e, db'.registry.stored? id = some e ∧ e.kind = k := by
  rcases Database.create_cases h k t owner with he | ⟨i, root, key, r, r', hi, _, _, rfl, hp, ht, hr⟩
  · exact Or.inl he
  refine Or.inr ⟨key.pack, _, hr, ?_, ?_⟩
  · rw [hi, Option.getD_some]
    have hs := hp.stores_fresh h ht
    refine ⟨hs.evolves, hs.stored, by simp [placedIds], ?_, ?_⟩
    · intro id hid
      rw [List.mem_singleton.1 hid]
      exact hp.not_spent
    · intro k' t' id i' hmem
      cases List.mem_singleton.1 hmem
      exact ⟨_, rfl, rfl, (Minting.Holds.of_places hp).mono ht.evolves⟩
  · exact ⟨_, (hp.stores_fresh h ht).self, rfl⟩

theorem of_updateBody {ε : Type} (h : db.registry.Sound) (k : RecordKind) (id : ObjectId)
    (f : k.Body → k.Body) :
    Plays db (after (Database.updateBody k id f : EStateM (Failure ε) Database _) db)
      [.written id (Change.body k f)] := by
  obtain ⟨r, hr, ht⟩ := Database.after_update (ε := ε) h k id fun x => { x with body := f x.body }
  rw [Database.updateBody, hr]
  refine of_write ht fun o _ hv => ?_
  rw [Change.isValid_body]
  exact hv

theorem of_setOwner (h : db.registry.Sound) (id owner : ObjectId) :
    Plays db (after (Database.setOwner id owner) db) ((Command.setOwner id owner).events db) := by
  simp only [Command.events]
  by_cases hn : owner.isNull = true
  · have hafter : after (Database.setOwner id owner) db = db := by
      simp only [after, Database.setOwner, if_pos hn, bind_apply, throw_apply]
    rw [hafter]
    cases db.ownerIndexFor? owner with
    | none => exact refl h
    | some index =>
      simp only [if_pos hn]
      exact refl h
  · cases hi : db.ownerIndexFor? owner with
    | none =>
      have hafter : after (Database.setOwner id owner) db = db := by
        simp only [after, Database.setOwner, if_neg hn, bind_apply, get_apply, hi, throw_apply]
      rw [hafter]
      exact refl h
    | some index =>
      obtain ⟨a, r, hr, ht⟩ := Database.modifyHeader_ok (ε := Failure DbError) h id
        (·.setOwner index)
      have hafter : after (Database.setOwner id owner) db = { db with registry := r } := by
        simp only [after, Database.setOwner, if_neg hn, bind_apply, get_apply, hi, hr, pure_apply]
      rw [hafter]
      simp only [if_neg hn]
      exact of_write ht fun o _ hv => hv

theorem of_appendId_some (h : db.registry.Sound) (array owner value : ObjectId) :
    Plays db (after (Database.appendId (some array) owner value) db)
      [.written array (Change.body .ids (·.push value))] := by
  have hbind : Database.appendId (some array) owner value =
      Database.updateBody .ids array (·.push value) >>= fun updated => do
        discard <| Edit.found array updated
        return array := rfl
  have hstill (updated : Option (Record (GrowArray ObjectId))) (t : Database) :
      after (do discard <| Edit.found array updated; return array : Edit ObjectId) t = t := by
    cases updated <;> rfl
  rw [hbind, after_bind_of_still hstill]
  exact of_updateBody h .ids array _

/-- An array that is made with its first element is a new array with room for some, to
which the element is added. -/
theorem of_appendId_none (h : db.registry.Sound) (owner value : ObjectId) :
    Plays db (after (Database.appendId none owner value) db)
      ((Command.appendId none owner value).events db) := by
  have hbind : Database.appendId none owner value =
      Database.createIdArray owner Database.defaultArrayCapacity >>= fun id =>
        Database.appendId (some id) owner value := rfl
  rcases of_create h .ids .array owner with ⟨e, he⟩ | ⟨id, db₁, hc, hp, e, he, hkind⟩
  · have harray : Database.createIdArray owner Database.defaultArrayCapacity db = .error e db := by
      rw [Database.createIdArray, bind_error he]
    simp only [Command.events, he, hbind, after, bind_error harray]
    exact refl h
  · obtain ⟨kind, x⟩ := e
    cases hkind
    obtain ⟨a, r, hr, ht⟩ := Database.update_ok (ε := DbError) hp.evolves.sound he
      fun x => { x with body := GrowArray.reserve x.body Database.defaultArrayCapacity }
    have hreserve := of_updateBody (ε := DbError) hp.evolves.sound .ids id
      (·.reserve Database.defaultArrayCapacity)
    have hok : Database.updateBody .ids id (·.reserve Database.defaultArrayCapacity) db₁ =
      EStateM.Result.ok (some a) { db₁ with registry := r } := hr
    rw [after_ok hok] at hreserve
    have harray : Database.createIdArray owner Database.defaultArrayCapacity db =
        .ok id { db₁ with registry := r } := by
      simp only [Database.createIdArray,
        Database.reserveIds_of_le Database.room_defaultArrayCapacity, bind_apply, hc,
        discard_apply, hok, pure_apply]
    have hpush := of_appendId_some hreserve.evolves.sound id owner value
    have hafter : after (Database.appendId none owner value) db =
        after (Database.appendId (some id) owner value) { db₁ with registry := r } := by
      rw [hbind]
      simp only [after, bind_ok harray]
    rw [hafter]
    simp only [Command.events, hc]
    exact (hp.trans h hreserve).trans h hpush

end Plays

theorem plays_perform {db : Database} (h : db.registry.Sound) {c : Command} (hc : c.Plain db) :
    Plays db (after c.perform db) (c.events db) := by
  cases c with
  | create k t owner =>
    simp only [Command.perform, after_discard, Command.events]
    rcases Plays.of_create h k t owner with ⟨e, he⟩ | ⟨id, db', hr, hp, _⟩
    · simp only [after, he]
      exact Plays.refl h
    · simp only [after, hr]
      exact hp
  | setOwner id owner =>
    simp only [Command.perform, after_discard, Command.events]
    exact Plays.of_setOwner h id owner
  | appendId array owner value =>
    simp only [Command.perform, after_discard]
    cases array with
    | none => exact Plays.of_appendId_none h owner value
    | some array => exact Plays.of_appendId_some h array owner value
  | write k id f =>
    simp only [Command.perform, after_discard, Command.events]
    obtain ⟨r, hr, ht⟩ := Database.after_update (ε := DbError) h k id f
    rw [hr]
    refine Plays.of_write ht fun o ho hv => ?_
    by_cases hk : o.kind = k
    · subst hk
      rw [Change.write_self]
      exact hc o.record ((Database.resolve_eq_some_iff h).2 ⟨hv, o.generation, ho⟩)
    · rw [Change.write_other hk]
      exact hv
  | writeHeader id f =>
    simp only [Command.perform, after_discard, Command.events]
    obtain ⟨r, hr, ht⟩ := Database.after_modifyHeader (ε := Failure DbError) h id f
    rw [hr]
    refine Plays.of_write ht fun o ho hv => hc o.record.header ?_
    rw [Database.header?_eq h, ho]
    simp only [Option.filter_some, hv, if_true, Option.map_some]
  | editHeader id e =>
    simp only [Command.perform, after_discard, Command.events]
    obtain ⟨r, hr, ht⟩ := Database.after_editHeader (ε := DbError) h id e
    rw [hr]
    refine Plays.of_write ht fun o ho hv => hc o.record.header ?_
    rw [Database.header?_eq h, ho]
    simp only [Option.filter_some, hv, if_true, Option.map_some]
  | destroy id =>
    simp only [Command.perform, after_discard, Command.events]
    have hid : db.registry.isScopeOwner id = false := hc
    obtain ⟨b, r, hr, hlive, ht⟩ := Database.destroy_of_not_owner (ε := Failure DbError) h hid
    rw [after_ok hr]
    simp only [hr]
    cases b with
    | true => exact Plays.of_free ht
    | false => exact Plays.of_dead ht fun hl => Bool.false_ne_true (hlive.2 hl)
  | _ => exact hc.elim

theorem plays_run {db : Database} (h : db.registry.Sound) (cmds : List Command)
    (hc : PlainRun db cmds) : Plays db (Database.run cmds db) (runEvents db cmds) := by
  induction cmds generalizing db with
  | nil => exact Plays.refl h
  | cons c cmds ih =>
    have hfirst := plays_perform h hc.1
    exact hfirst.trans h (ih hfirst.evolves.sound hc.2)

/-- The store after a run is the map after the events of the run. -/
theorem entries_run {db : Database} (h : db.registry.Sound) (cmds : List Command)
    (hc : PlainRun db cmds) :
    (Database.run cmds db).registry.stored? =
      (runEvents db cmds).foldl Event.act db.registry.stored? :=
  (plays_run h cmds hc).entries

/-! ## One handle -/

/-- The writes made through a handle. -/
def writesTo (id : ObjectId) (events : List Event) : List Change :=
  events.filterMap fun
    | .written id' c => if id' = id then some c else none
    | _ => none

theorem not_mem_placedIds_cons {id : ObjectId} {e : Event} {events : List Event}
    (h : id ∉ placedIds (e :: events)) :
    (∀ k t owner, e ≠ .placed k t id owner) ∧ id ∉ placedIds events := by
  simp only [mem_placedIds, List.mem_cons, not_exists, not_or] at h ⊢
  exact ⟨fun k t owner he => (h k t owner).1 he.symm, fun k t owner => (h k t owner).2⟩

/-- What an event that does not place a record under a handle does to its entry. -/
theorem act_apply {id : ObjectId} {e : Event} (he : ∀ k t owner, e ≠ .placed k t id owner)
    (m : ObjectId → Option Entry) :
    (e = .freed id ∧ Event.act m e id = none) ∨
      (e ≠ .freed id ∧ Event.act m e id =
        (m id).map fun x => (writesTo id [e]).foldl (fun x c => x.change c) x) := by
  have hid' : (m id).map (fun x => x) = m id := Option.map_id'
  cases e with
  | placed k t id' owner =>
    have hne : id ≠ id' := by
      rintro rfl
      exact he k t owner rfl
    refine Or.inr ⟨by simp, ?_⟩
    simp only [Event.act, onEntry, if_neg hne]
    exact hid'.symm
  | written id' c =>
    refine Or.inr ⟨by simp, ?_⟩
    by_cases hid : id = id'
    · subst hid
      simp [Event.act, onEntry, writesTo]
    · have hid₂ : ¬ id' = id := fun e => hid e.symm
      simp only [Event.act, onEntry, if_neg hid, writesTo, List.filterMap_cons, if_neg hid₂]
      exact hid'.symm
  | freed id' =>
    by_cases hid : id = id'
    · subst hid
      exact Or.inl ⟨rfl, by simp only [Event.act, onEntry, if_true]⟩
    · refine Or.inr ⟨fun e => hid (Event.freed.inj e).symm, ?_⟩
      simp only [Event.act, onEntry, if_neg hid]
      exact hid'.symm

theorem writesTo_cons (id : ObjectId) (e : Event) (events : List Event) :
    writesTo id (e :: events) = writesTo id [e] ++ writesTo id events := by
  rw [writesTo, writesTo, writesTo, ← List.filterMap_append]
  rfl

/-- The entry of a handle that is not placed again: it is gone for good once it is freed,
and until then it is changed by the writes made through the handle. -/
theorem foldl_act_apply {id : ObjectId} {events : List Event} (h : id ∉ placedIds events)
    (m : ObjectId → Option Entry) :
    (.freed id ∈ events → events.foldl Event.act m id = none) ∧
      (.freed id ∉ events → events.foldl Event.act m id =
        (m id).map fun x => (writesTo id events).foldl (fun x c => x.change c) x) := by
  induction events generalizing m with
  | nil =>
    refine ⟨fun hf => absurd hf List.not_mem_nil, fun _ => ?_⟩
    exact Option.map_id'.symm
  | cons e events ih =>
    obtain ⟨he, hrest⟩ := not_mem_placedIds_cons h
    obtain ⟨hfreed, hkept⟩ := ih hrest (Event.act m e)
    rw [List.foldl_cons]
    rcases act_apply he m with ⟨rfl, hnone⟩ | ⟨hne, hsome⟩
    · refine ⟨fun _ => ?_, fun hn => absurd List.mem_cons_self hn⟩
      by_cases hf : .freed id ∈ events
      · exact hfreed hf
      · rw [hkept hf, hnone, Option.map_none]
    · refine ⟨fun hf => ?_, fun hn => ?_⟩
      · rcases List.mem_cons.1 hf with hf | hf
        · exact absurd hf.symm hne
        · exact hfreed hf
      · rw [hkept fun hf => hn (List.mem_cons_of_mem _ hf), hsome, Option.map_map,
          writesTo_cons id e events]
        simp only [Function.comp_def, List.foldl_append]

theorem foldl_change (k : RecordKind) (x : Record k.Body) (changes : List Change) :
    changes.foldl (fun e c => e.change c) ({ kind := k, record := x } : Entry) =
      { kind := k, record := changes.foldl (fun x c => c k x) x } := by
  induction changes generalizing x with
  | nil => rfl
  | cons c changes ih => exact ih (c k x)

/-- Reading a handle at the kind it was placed as, its header and its status are what its
entry says. -/
theorem Minting.Holds.reads {db : Database} {m : Minting} (hsound : db.registry.Sound)
    (h : m.Holds db.registry) :
    (db.registry.stored? m.id = none →
        db.resolve m.kind m.id = .ok none ∧ db.header? m.id = none ∧ db.isLive m.id = false) ∧
      ∀ x, db.registry.stored? m.id = some { kind := m.kind, record := x } →
        db.resolve m.kind m.id = .ok (some x) ∧ db.header? m.id = some x.header ∧
          db.isLive m.id = true := by
  constructor
  · intro hn
    rw [Registry.stored?_eq_none_iff] at hn
    obtain ⟨hlive, hheader, hresolve, _⟩ := h.reads_of_stale hsound (h.spent.stale_of_not_live hn)
    exact ⟨hresolve, hheader, hlive⟩
  · intro x hx
    obtain ⟨o, ho, he⟩ := Option.map_eq_some_iff.1 hx
    obtain ⟨ho, hv⟩ := Option.filter_eq_some_iff.1 ho
    obtain ⟨k, g, y⟩ := o
    cases he
    have hheader : db.header? m.id = some y.header := by
      rw [Database.header?_eq hsound, ho]
      simp only [Option.filter_some, hv, if_true, Option.map_some]
    refine ⟨(Database.resolve_eq_some_iff hsound).2 ⟨hv, g, ho⟩, hheader, ?_⟩
    rw [Database.isLive, hheader, Option.isSome_some]

/-- From any state of any run on, let records be created, written to, given other owners
and destroyed, scope owners apart.  A handle that was given out for a record reads as that
record until the record is destroyed: blank at first, with a new header and the position
of its owner, and with the writes made through the handle since, in their order.  After it
is destroyed it reads as nothing. -/
theorem minted_id_refines {c : StoreConfig} {db : Database} (h : Database.new c = .ok db)
    (prior cmds : List Command) (hplain : PlainRun (Database.run prior db) cmds)
    {k : RecordKind} {t : ObjectType} {id : ObjectId} {owner : ObjectIndex}
    {before later : List Event}
    (he : runEvents (Database.run prior db) cmds = before ++ .placed k t id owner :: later) :
    let db' := Database.run cmds (Database.run prior db)
    (.freed id ∈ later →
        db'.resolve k id = .ok none ∧ db'.header? id = none ∧ db'.isLive id = false) ∧
      (.freed id ∉ later →
        let blank : Record k.Body :=
          { header := (({} : Header).stamp id t).setOwner owner, body := default }
        let x := (writesTo id later).foldl (fun x c => c k x) blank
        db'.resolve k id = .ok (some x) ∧ db'.header? id = some x.header ∧
          db'.isLive id = true) := by
  have hsound : (Database.run prior db).registry.Sound := by
    have hs := Session.run_db prior (Session.start db)
    have hg := (Session.onward_run prior _ (Session.good_start h)).1.sound
    rwa [hs] at hg
  have hplays := plays_run hsound cmds hplain
  have hentries := hplays.entries
  have hnodup := hplays.nodup
  obtain ⟨m, rfl, rfl, hm⟩ := hplays.holds (he ▸ List.mem_append_right _ List.mem_cons_self)
  have hlater : m.id ∉ placedIds later := by
    rw [he, placedIds_append, List.nodup_append] at hnodup
    exact (List.nodup_cons.1 hnodup.2.1).1
  rw [he, List.foldl_append, List.foldl_cons] at hentries
  obtain ⟨hfreed, hkept⟩ := foldl_act_apply hlater (Event.act
    (before.foldl Event.act (Database.run prior db).registry.stored?)
    (.placed m.kind t m.id owner))
  obtain ⟨hnone, hsome⟩ := hm.reads hplays.evolves.sound
  intro db'
  refine ⟨fun hf => hnone ?_, fun hf => hsome _ ?_⟩
  · rw [hentries, hfreed hf]
  · rw [hentries, hkept hf, ← foldl_change]
    simp only [Event.act, onEntry, if_true, Option.map_some]
    rfl

/-- An instance that is destroyed, and another in the slot it had. -/
theorem minted_id_refines_reused :
    let db := Database.run [.initTopCell "top"] (Database.empty {})
    let top := Session.firstPage 1 .cell 0 0
    let first := Session.firstPage 1 .inst 0 0
    let second := Session.firstPage 1 .inst 1 0
    let cmds : List Command := [.create .inst .inst top, .destroy first, .create .inst .inst top]
    PlainRun db cmds ∧
      runEvents db cmds =
        [.placed .inst .inst first ⟨1⟩, .freed first, .placed .inst .inst second ⟨1⟩] ∧
      (Database.run cmds db).resolve .inst first = .ok none ∧
      (Database.run cmds db).isLive second = true := by
  have he : runEvents (Database.run [.initTopCell "top"] (Database.empty {}))
      [.create .inst .inst (Session.firstPage 1 .cell 0 0), .destroy (Session.firstPage 1 .inst 0 0),
        .create .inst .inst (Session.firstPage 1 .cell 0 0)] =
      [.placed .inst .inst (Session.firstPage 1 .inst 0 0) ⟨1⟩,
        .freed (Session.firstPage 1 .inst 0 0),
        .placed .inst .inst (Session.firstPage 1 .inst 1 0) ⟨1⟩] := by
    cbv
  intro db top first second cmds
  have howner : (Database.run [.create .inst .inst top] db).registry.isScopeOwner first = false := by
    decide +kernel
  have hplain : PlainRun db cmds := ⟨trivial, howner, trivial, trivial⟩
  have hfirst := minted_id_refines (c := {}) rfl [.initTopCell "top"] cmds hplain
    (show runEvents db cmds = [] ++ .placed .inst .inst first ⟨1⟩ :: _ from he)
  have hsecond := minted_id_refines (c := {}) rfl [.initTopCell "top"] cmds hplain
    (show runEvents db cmds = [_, _] ++ .placed .inst .inst second ⟨1⟩ :: [] from he)
  exact ⟨hplain, he, (hfirst.1 List.mem_cons_self).1, (hsecond.2 List.not_mem_nil).2.2⟩

end DesignStore
