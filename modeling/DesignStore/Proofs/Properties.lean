/-
Properties of the records that are live.

Beside what keeps the properties of records as they are there is only the writing of properties
itself.  The theorem at the end says what a run comes to in which properties are written record
by record, each in the scope its record stays in.
-/
import DesignStore.Proofs.Endurance
import DesignStore.Proofs.HomeScopes
import DesignStore.Proofs.PropertyTable

namespace DesignStore

/-! ## Runs in which properties are written -/

namespace Command

/-- A write by hand leaves the status by which records are live. -/
def LeavesStatus : Command → Prop
  | write _ _ f => ∀ x, (f x).isValid = x.isValid
  | writeHeader _ f => ∀ h, (f h).isValid = h.isValid
  | editHeader _ e => ∀ h, (e.perform h).isValid = h.isValid
  | _ => True

/-- The record in whose home scope a command writes properties. -/
def propertiesOf? : Command → Option ObjectId
  | properties id _ => some id
  | _ => none

end Command

/-- What is done in a run in which properties are written record by record. -/
inductive Action where
  | property (id : ObjectId) (e : PropertyEdit)
  | command (c : Command)

namespace Action

def toCommand : Action → Command
  | property id e => .properties id (e.onTable id)
  | command c => c

/-- No property is written in another way, and no status by which records are live. -/
def Allowed : Action → Prop
  | property _ _ => True
  | command c => c.LeavesStatus ∧ c.propertiesOf? = none

/-- What becomes of the value that was last set for a property. -/
def value (id : ObjectId) (name : String) : Action → Option PropertyValue → Option PropertyValue
  | property j e, v => if id = j then e.value name v else v
  | command _, v => v

/-- The value last set for a property and not removed. -/
def lastSet (actions : List Action) (id : ObjectId) (name : String) : Option PropertyValue :=
  actions.foldl (fun v a => a.value id name v) none

end Action

namespace Database

open Registry

variable {X : ObjectId → Prop} {db db' : Database} {id : ObjectId}
  {values : ObjectId → String → Option PropertyValue}

theorem abides_perform {c : Command} (hc : c.LeavesStatus) (hp : c.propertiesOf? = none) :
    Keeps (AbidesFrom X) c.perform := by
  refine (Session.abides_stable X).perform_onDb fun hh => ?_
  cases c with
  | setOwner id owner => exact (abides_setOwner id owner).discard
  | restoreHierarchy l => exact abides_restoreHierarchy l
  | write k id f => exact (abides_update k id hc).discard
  | writeHeader id f => exact (abides_modifyHeader id hc).discard
  | editHeader id e => exact (abides_editHeader id hc).discard
  | properties id x => contradiction
  | _ => exact hh.elim

/-! ## A property is written -/

theorem registry_after_property (db : Database) (id : ObjectId) (e : PropertyEdit) :
    (after (Action.property id e).toCommand.perform db).registry = db.registry := by
  rw [Action.toCommand, Command.perform, after_discard, registry_after_onHomeScope]

theorem Attributed.scopes_after_property (h : db.Attributed) (id : ObjectId) (e : PropertyEdit) :
    (after (Action.property id e).toCommand.perform db).scopes =
      db.scopes.map (·.rewriting id (after (e.onTable (ε := Failure DbError) id))) := by
  rw [Action.toCommand, Command.perform, after_discard]
  exact scopes_after_onProperties h.tags id (e.onTable id)

theorem abides_property (hlive : db.registry.Live id) (hX : X id) (e : PropertyEdit) :
    AbidesFrom X db (after (Action.property id e).toCommand.perform db) := by
  intro h
  have hreg := registry_after_property db id e
  have he : Evolves db.registry (after (Action.property id e).toCommand.perform db).registry := by
    rw [hreg]
    exact Evolves.refl h.sound
  refine Abides.of_rewriting _ h he (h.scopes_after_property id e) (fun t j hj => ?_)
    (fun _ _ hl => hreg ▸ hl) (fun _ _ => hreg ▸ hlive) fun _ => hX
  rw [PropertyEdit.byObject_onTable, if_neg hj]

/-- The properties of live records are as `values` says, and no value is told of a record that
there was not yet. -/
structure Reflects (values : ObjectId → String → Option PropertyValue) (db : Database) : Prop where
  attributed : db.Attributed
  unset : ∀ id, ¬ db.registry.Spent id → ∀ name, values id name = none
  value : ∀ id s, db.registry.Live id → db.homeScope? id = some s → ∀ name,
    s.properties.get? id name = values id name

namespace Reflects

theorem of_abides (h : Reflects values db) (ha : Abides (fun _ => False) db db') :
    Reflects values db' where
  attributed := ha.attributed
  unset := fun id hn => h.unset id fun hspent => hn (hspent.mono ha.evolves)
  value := by
    intro id s' hl' hs' name
    have hproperties := ha.properties id not_false hl'
    have hget : s'.properties.get? id name = (db.properties? id).bind (·.get? name) := by
      rw [← hproperties, properties?, hs']
      rfl
    rw [hget]
    by_cases hspent : db.registry.Spent id
    · have hl := (Evolves.refl h.attributed.sound).live_between ha.evolves hspent hl'
      have hhome := ha.home id hl hl'
      rw [hs', Option.map_some] at hhome
      obtain ⟨s, hs, _⟩ := Option.map_eq_some_iff.1 hhome.symm
      rw [← h.value id s hl hs name, properties?, hs]
      rfl
    · rw [h.attributed.properties?_eq_none fun hl => hspent (h.attributed.sound.spent_of_live hl),
        h.unset id hspent name]
      rfl

theorem of_property (h : Reflects values db) (hlive : db.registry.Live id) (e : PropertyEdit) :
    Reflects (fun j name => (Action.property id e).value j name (values j name))
      (after (Action.property id e).toCommand.perform db) where
  attributed := (abides_property (X := fun _ => True) hlive trivial e h.attributed).attributed
  unset := by
    intro j hn name
    rw [registry_after_property] at hn
    have hj : j ≠ id := fun e => hn (e ▸ h.attributed.sound.spent_of_live hlive)
    rw [Action.value, if_neg hj]
    exact h.unset j hn name
  value := by
    intro j s' hl' hs' name
    rw [registry_after_property] at hl'
    rw [homeScope?_rewriting _ (h.attributed.scopes_after_property id e)] at hs'
    obtain ⟨s, hs, rfl⟩ := Option.map_eq_some_iff.1 hs'
    have hvalue := h.value j s hl' hs name
    by_cases hj : j = id
    · subst hj
      rw [rewriting_self _ (h.attributed.homeScope?_eq_some_iff.1 hs).2, Action.value, if_pos rfl,
        ← hvalue]
      exact (PropertyTable.get?_onTable s.properties j j name e).trans (if_pos rfl)
    · have hbyObject := PropertyEdit.byObject_onTable (ε := Failure DbError) id j e s.properties
      rw [if_neg hj] at hbyObject
      rw [Action.value, if_neg hj, ← hvalue]
      exact congrArg (Option.bind · (·.get? name)) (rewriting_other _ hbyObject)

/-- What one step of a run keeps. -/
theorem step (h : Reflects values db) {a : Action} (ha : a.Allowed)
    (hlive : ∀ id ∈ a.toCommand.propertiesOf?, db.isLive id = true) :
    Reflects (fun id name => a.value id name (values id name)) (after a.toCommand.perform db) ∧
      Abides (fun _ => True) db (after a.toCommand.perform db) := by
  cases a with
  | property id e =>
    have hl := (isLive_iff h.attributed.sound id).1 (hlive id rfl)
    exact ⟨h.of_property hl e, abides_property hl trivial e h.attributed⟩
  | command c =>
    exact ⟨h.of_abides (abides_perform ha.1 ha.2 db h.attributed),
      abides_perform ha.1 ha.2 db h.attributed⟩

/-- What a run keeps. -/
theorem run (h : Reflects values db) {actions : List Action} (hallowed : ∀ a ∈ actions, a.Allowed)
    (hlive : db.Throughout (fun db c => ∀ id ∈ c.propertiesOf?, db.isLive id = true)
      (actions.map Action.toCommand)) :
    Reflects (fun id name => actions.foldl (fun v a => a.value id name v) (values id name))
        (Database.run (actions.map Action.toCommand) db) ∧
      Abides (fun _ => True) db (Database.run (actions.map Action.toCommand) db) := by
  induction actions generalizing db values with
  | nil => exact ⟨h, h.attributed.abides_refl⟩
  | cons a actions ih =>
    obtain ⟨hstep, ha⟩ := h.step (hallowed a List.mem_cons_self) hlive.1
    obtain ⟨hrun, ha'⟩ := ih hstep (fun b hb => hallowed b (List.mem_cons_of_mem a hb)) hlive.2
    exact ⟨hrun, ha.trans h.attributed ha'⟩

end Reflects

theorem reflects_empty {c : StoreConfig} (h : c.pool.Valid) :
    Reflects (fun _ _ => none) (empty c) where
  attributed :=
    { sound := Registry.sound_empty h
      owners := List.nodup_nil
      tags := List.nodup_nil
      issued := by simp [empty]
      spent := by simp [empty]
      live := by simp [empty] }
  unset := fun _ _ _ => rfl
  value := by
    intro id s hl
    exact absurd hl (not_live_of_lookup?_none (by
      cases hof : ScopeTag.of? id <;> simp [Registry.lookup?, hof, empty, Registry.empty, pool?]))

end Database

/-- Let properties be written only in the home scope of a record that is live, and let no write by
hand change the status by which records are live.  At every point of a run a live record is in
the scope in which it was at every earlier point at which it was live, whatever was done to its
owners, and its properties there are those last set and not removed.  What has properties in an
open scope is live, and in that scope. -/
theorem properties_of_live {c : StoreConfig} {start : Database} (h : Database.new c = .ok start)
    {actions : List Action} (hallowed : ∀ a ∈ actions, a.Allowed)
    (hlive : start.Throughout (fun db c => ∀ id ∈ c.propertiesOf?, db.isLive id = true)
      (actions.map Action.toCommand)) :
    let db := Database.run (actions.map Action.toCommand) start
    (∀ id, db.isLive id = true →
      (∀ earlier later, actions = earlier ++ later →
        (Database.run (earlier.map Action.toCommand) start).isLive id = true →
        (db.homeScope? id).map (fun s => (s.owner, s.tag)) =
          ((Database.run (earlier.map Action.toCommand) start).homeScope? id).map
            fun s => (s.owner, s.tag)) ∧
      ∀ s name, db.homeScope? id = some s →
        s.properties.get? id name = Action.lastSet actions id name) ∧
    ∀ s ∈ db.scopes, ∀ id, s.properties.hasProperties id = true →
      db.isLive id = true ∧ db.homeScope? id = some s := by
  obtain ⟨hc, rfl⟩ := Database.new_eq_ok h
  intro db
  obtain ⟨hr, -⟩ := (Database.reflects_empty hc).run hallowed hlive
  have ha : db.Attributed := hr.attributed
  refine ⟨fun id hid => ?_, fun s hs id hid => ?_⟩
  · have hl := (Database.isLive_iff ha.sound id).1 hid
    refine ⟨?_, fun s name hs => hr.value id s hl hs name⟩
    rintro earlier later rfl hid'
    rw [List.map_append, Database.throughout_append] at hlive
    obtain ⟨hr', -⟩ := (Database.reflects_empty hc).run
      (fun a hm => hallowed a (List.mem_append_left later hm)) hlive.1
    obtain ⟨-, habides⟩ := hr'.run (fun a hm => hallowed a (List.mem_append_right earlier hm)) hlive.2
    rw [← Database.run_append, ← List.map_append] at habides
    exact habides.home id ((Database.isLive_iff hr'.attributed.sound id).1 hid') hl
  · obtain ⟨hl, hof⟩ := ha.live s hs id hid
    exact ⟨(Database.isLive_iff ha.sound id).2 hl, ha.homeScope?_eq_some_iff.2 ⟨hs, hof⟩⟩

/-- A record with a property is moved to a library, and a nested cell with a property is destroyed
together with its scope. -/
theorem properties_of_live_moved :
    let top := Session.firstPage 1 .cell 0 0
    let nested := Session.firstPage 1 .cell 0 1
    let inst := Session.firstPage 1 .inst 0 0
    let tech := Session.firstPage 3 .tech 0 0
    let earlier : List Action := [.command (.initTopCell "top"), .command (.create .inst .inst top),
      .command (.createHierCell top "nested"), .command .initTechLib]
    let later : List Action := [.property inst (.set "w" (.bool false)),
      .property inst (.set "w" (.bool true)), .property nested (.set "k" (.bool true)),
      .command (.setOwner inst tech), .command (.destroy nested)]
    let actions := earlier ++ later
    let db := Database.run (actions.map Action.toCommand) (Database.empty {})
    (∀ a ∈ actions, a.Allowed) ∧
      (Database.empty {}).Throughout (fun db c => ∀ id ∈ c.propertiesOf?, db.isLive id = true)
        (actions.map Action.toCommand) ∧
      db.scopeRoot inst = .ok (some tech) ∧
      (∃ s, db.homeScope? inst = some s ∧ s.owner = top ∧
        s.properties.get? inst "w" = some (.bool true)) ∧
      ∀ s ∈ db.scopes, s.properties.hasProperties nested = false := by
  intro top nested inst tech earlier later actions db
  have hallowed : ∀ a ∈ actions, a.Allowed := by
    simp [actions, earlier, later, Action.Allowed, Command.LeavesStatus, Command.propertiesOf?]
  have hlive : (Database.empty {}).Throughout
      (fun db c => ∀ id ∈ c.propertiesOf?, db.isLive id = true) (actions.map Action.toCommand) := by
    decide +kernel
  obtain ⟨hproperties, hdead⟩ := properties_of_live (c := {}) rfl hallowed hlive
  have hinst : db.isLive inst = true := by decide +kernel
  have hnested : db.isLive nested = false := by decide +kernel
  obtain ⟨hhome, hvalue⟩ := hproperties inst hinst
  have hsame := hhome earlier later rfl (by decide +kernel)
  have htop : ((Database.run (earlier.map Action.toCommand) (Database.empty {})).homeScope? inst).map
      (fun s => (s.owner, s.tag)) = some (top, ⟨1⟩) := by decide +kernel
  rw [htop] at hsame
  obtain ⟨s, hs, hst⟩ := Option.map_eq_some_iff.1 hsame
  refine ⟨hallowed, hlive, by decide +kernel,
    ⟨s, hs, congrArg Prod.fst hst, (hvalue s "w" hs).trans (by decide +kernel)⟩, fun s hs => ?_⟩
  rw [Bool.eq_false_iff]
  intro hid
  rw [(hdead s hs nested hid).1] at hnested
  contradiction

end DesignStore
