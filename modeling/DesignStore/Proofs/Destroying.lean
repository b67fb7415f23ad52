/-
Destroying what is not there.

A record that is destroyed is taken off the properties of its home scope and off the hierarchy
before its pool is asked to free it.  The pool refuses a record that is not live and changes
nothing, but a property or a position that the handle still had is gone by then
(`refused_destroy`).  In a run that writes neither hierarchy nor headers by hand, and properties
of live records only, there is none, so that a destroy that is refused changes nothing at all
(`refused_destroy_still`).
-/
import DesignStore.Proofs.OwnerReference
import DesignStore.Proofs.PoolLayout
import DesignStore.Proofs.Properties

namespace DesignStore

namespace Hierarchy

variable {ε : Type}

theorem after_delete_iff (h : Hierarchy) (id : ObjectId) :
    after (delete (ε := ε) id) h = h ↔ h.indexOf? id = none := by
  cases hi : h.positions.get? id with
  | none => simp [after, delete, indexOf?, hi]
  | some i =>
    have hd : (after (delete (ε := ε) id) h).indexOf? id = none := by
      simp only [after, delete, hi, indexOf?, Assoc.get?_erase, if_true]
    constructor
    · intro hsame
      rwa [hsame] at hd
    · intro hn
      rw [indexOf?, hi] at hn
      contradiction

end Hierarchy

namespace Database

open Registry

variable {ε : Type} {db : Database} {id : ObjectId}

/-! ## What is taken away before a record is freed -/

theorem after_removeAll_iff (s : StorageScope) (id : ObjectId) :
    after (StorageScope.onProperties (PropertyTable.removeAll (ε := ε) id)) s = s ↔
      s.properties.byObject.get? id = none := by
  have hr : after (StorageScope.onProperties (PropertyTable.removeAll (ε := ε) id)) s =
      { s with properties := { byObject := s.properties.byObject.erase id } } := rfl
  rw [hr]
  constructor
  · intro hsame
    rw [← hsame, Assoc.get?_erase, if_pos rfl]
  · intro hn
    rw [Assoc.erase_of_get?_none hn]

theorem scopes_after_removeAll_iff (db : Database) (id : ObjectId) :
    (after (onHomeScope (ε := ε) id (StorageScope.onProperties (PropertyTable.removeAll id)))
      db).scopes = db.scopes ↔ db.properties? id = none := by
  cases hof : ScopeTag.of? id with
  | none => simp [after, onHomeScope, properties?, homeScope?, hof]
  | some tag =>
    have hproperties : db.properties? id =
        (db.scopes.find? (·.tag = tag)).bind fun s => s.properties.byObject.get? id := by
      simp only [properties?, homeScope?, hof, Option.bind_eq_bind, Option.bind_some]
    rw [after_onHomeScope_of_tag hof, after_onScopeWhere, onFirst_still_iff, hproperties,
      Option.bind_eq_none_iff]
    exact forall₂_congr fun s _ => after_removeAll_iff s id

/-! ## Where there is nothing to destroy -/

/-- Closing a scope answers whether there is one. -/
theorem eq_of_destroyScope {db' : Database} {o : ObjectId} {b : Bool}
    (h : (destroyScope o : EStateM ε Database Bool) db = .ok b db') : b = (db.scope? o).isSome := by
  cases ho : db.scope? o with
  | none =>
    rw [destroyScope_of_none ho] at h
    cases h
    rfl
  | some s =>
    simp only [destroyScope, bind_apply, get_apply, ho, modify_apply] at h
    cases hp : s.parent with
    | none =>
      rw [hp] at h
      cases h
      rfl
    | some p =>
      rw [hp] at h
      obtain ⟨_, _, -, h⟩ := ok_of_bind h
      obtain ⟨_, _, -, h⟩ := ok_of_bind h
      obtain ⟨_, _, -, h⟩ := ok_of_bind h
      cases h
      rfl

theorem destroy_of_closed (hid : db.registry.isScopeOwner id = true) (ho : db.scope? id = none) :
    (destroy id : EStateM ε Database Bool) db = .ok false db :=
  (destroy_of_owner hid).trans (destroyScope_of_none ho)

/-- Of a record that is not live the properties and the position go, and nothing else. -/
theorem destroy_of_not_live (h : db.registry.Sound) (hid : db.registry.isScopeOwner id = false)
    (hn : ¬ db.registry.Live id) :
    (destroy id : EStateM ε Database Bool) db = .ok false
      { after (onHomeScope (ε := ε) id (StorageScope.onProperties (PropertyTable.removeAll id))) db with
        hierarchy := after (Hierarchy.delete (ε := ε) id) db.hierarchy } := by
  obtain ⟨b, hr, hb⟩ := destroy_eq (ε := ε) h hid
  rw [hr, Bool.eq_false_iff.2 fun hb' => hn (hb.1 hb'), free_still h hn,
    ← registry_after_onHomeScope (ε := ε) id
      (StorageScope.onProperties (PropertyTable.removeAll id)) db]

theorem refuses_iff (h : db.registry.Sound) :
    answer (destroy id : EStateM ε Database Bool) db = .ok false ↔
      if db.registry.isScopeOwner id = true then db.scope? id = none else db.isLive id = false := by
  cases hid : db.registry.isScopeOwner id with
  | true =>
    rw [if_pos rfl, answer, destroy_of_owner hid, ← answer]
    constructor
    · intro hr
      simpa using (eq_of_destroyScope (eq_ok_of_answer hr)).symm
    · intro ho
      exact answer_ok (destroyScope_of_none ho)
  | false =>
    obtain ⟨b, hr, hb⟩ := destroy_eq (ε := ε) h hid
    rw [if_neg Bool.false_ne_true, answer_ok hr, Except.ok.injEq, Bool.eq_false_iff,
      Bool.eq_false_iff, Ne, Ne, hb, isLive_iff h]

/-- A destroy that is refused changes nothing exactly if the handle has no property in its home
scope and no position. -/
theorem destroy_eq_self_iff (h : db.registry.Sound) (hid : db.registry.isScopeOwner id = false)
    (hn : ¬ db.registry.Live id) :
    after (destroy id : EStateM ε Database Bool) db = db ↔
      db.properties? id = none ∧ db.hierarchy.indexOf? id = none := by
  rw [after_ok (destroy_of_not_live h hid hn), ← scopes_after_removeAll_iff (ε := ε),
    ← Hierarchy.after_delete_iff (ε := ε)]
  constructor
  · intro hsame
    have hscopes := congrArg Database.scopes hsame
    have hhierarchy := congrArg Database.hierarchy hsame
    exact ⟨hscopes, hhierarchy⟩
  · rintro ⟨hscopes, hhierarchy⟩
    rw [hhierarchy]
    rcases after_onHomeScope (ε := ε) id (StorageScope.onProperties (PropertyTable.removeAll id)) db
      with hr | ⟨_, _, hr⟩
    · rw [hr]
    · rw [hr, after_onScopeWhere] at hscopes ⊢
      rw [show after (onFirst _ _) db.scopes = db.scopes from hscopes]

end Database

/-- Destroying answers false where the owner of a scope has no open scope, which changes nothing,
and else where there is no live record.  In that case no record, no pool and no scope is changed
but for one property table: the properties of the handle in its home scope are gone, and its
position is.  So nothing is changed exactly if there were none.  The same goes for arrays; the
handle of anything else is refused outright. -/
theorem refused_destroy {c : StoreConfig} {start : Database} (h : Database.new c = .ok start)
    (cmds : List Command) (id : ObjectId) :
    let db := Database.run cmds start
    let db' := after (Database.destroy id : Edit Bool) db
    (answer (Database.destroy id : Edit Bool) db = .ok false ↔
      if db.registry.isScopeOwner id = true then db.scope? id = none else db.isLive id = false) ∧
    (Database.destroyIdArray id : Edit Bool) db =
      (if id.type? = some .array then (Database.destroy id : Edit Bool) db else .ok false db) ∧
    (answer (Database.destroy id : Edit Bool) db = .ok false →
      db'.registry = db.registry ∧
      (db.registry.isScopeOwner id = true → db' = db) ∧
      (db.registry.isScopeOwner id = false →
        db' = { after (Database.onHomeScope id (StorageScope.onProperties
            (PropertyTable.removeAll id)) : Edit (Option Nat)) db with
          hierarchy := after (Hierarchy.delete (ε := Failure DbError) id) db.hierarchy } ∧
        (db' = db ↔ db.properties? id = none ∧ db.hierarchy.indexOf? id = none))) := by
  intro db db'
  have hs : db.registry.Sound := (Database.laid_run h cmds).sound
  refine ⟨Database.refuses_iff hs, ?_, fun hr => ?_⟩
  · unfold Database.destroyIdArray
    split <;> rfl
  · have hrefused := (Database.refuses_iff hs).1 hr
    cases hid : db.registry.isScopeOwner id with
    | true =>
      rw [hid, if_pos rfl] at hrefused
      have hsame : db' = db := after_ok (Database.destroy_of_closed hid hrefused)
      exact ⟨by rw [hsame], fun _ => hsame, fun hf => by contradiction⟩
    | false =>
      rw [hid, if_neg Bool.false_ne_true, Bool.eq_false_iff, Ne, Database.isLive_iff hs] at hrefused
      have hdb' := after_ok (Database.destroy_of_not_live (ε := Failure DbError) hs hid hrefused)
      refine ⟨?_, fun ht => by contradiction,
        fun _ => ⟨hdb', Database.destroy_eq_self_iff hs hid hrefused⟩⟩
      show (after (Database.destroy id : Edit Bool) db).registry = db.registry
      rw [hdb']
      exact Database.registry_after_onHomeScope id _ db

/-- A record is put back in the hierarchy and given a property after it was destroyed. -/
theorem refused_destroy_of_restored :
    let top := Session.firstPage 1 .cell 0 0
    let inst := Session.firstPage 1 .inst 0 0
    let cmds : List Command := [.initTopCell "top", .create .inst .inst top, .indexObject inst,
      .destroy inst, .restoreHierarchy [(⟨2⟩, inst)],
      .properties inst ((PropertyEdit.set "w" (.bool true)).onTable inst)]
    let db := Database.run cmds (Database.empty {})
    let db' := after (Database.destroy inst : Edit Bool) db
    Database.new {} = .ok (Database.empty {}) ∧
      answer (Database.destroy inst : Edit Bool) db = .ok false ∧
      db'.registry = db.registry ∧ db' ≠ db := by
  intro top inst cmds db db'
  obtain ⟨hrefuses, -, hr⟩ := refused_destroy (c := {}) rfl cmds inst
  have hanswer := hrefuses.2 (by decide +kernel)
  obtain ⟨hregistry, -, hchanged⟩ := hr hanswer
  refine ⟨rfl, hanswer, hregistry, fun hsame => ?_⟩
  obtain ⟨hproperties, -⟩ := (hchanged (by decide +kernel)).2.1 hsame
  have hset : ((Database.run cmds (Database.empty {})).properties? inst).isSome = true := by
    decide +kernel
  rw [hproperties] at hset
  contradiction

/-- A record is destroyed a second time, after a hierarchy was restored in which it had a position.
The answer is false, but the position and a property that was set in between are gone. -/
theorem destroyed_again_taken_out :
    let top := Session.firstPage 1 .cell 0 0
    let inst := Session.firstPage 1 .inst 0 0
    let db := Database.run [.initTopCell "top", .create .inst .inst top, .indexObject inst,
      .destroy inst, .restoreHierarchy [(⟨2⟩, inst)],
      .properties inst ((PropertyEdit.set "w" (.bool true)).onTable inst)] (Database.empty {})
    let db' := after (Database.destroy inst : Edit Bool) db
    answer (Database.destroy inst : Edit Bool) db = .ok false ∧
      db.hierarchy.indexOf? inst = some ⟨2⟩ ∧ db'.hierarchy.indexOf? inst = none ∧
      db.hierarchy.idAt? ⟨2⟩ = some inst ∧ db'.hierarchy.idAt? ⟨2⟩ = none ∧
      db.scopes.map (·.properties.get? inst "w") = [some (.bool true)] ∧
      db'.scopes.map (·.properties.get? inst "w") = [none] := by
  decide +kernel

/-- In a run that restores no hierarchy and writes no header by hand, and in which properties are
written of live records only, a destroy that is refused changes nothing. -/
theorem refused_destroy_still {c : StoreConfig} {start : Database} (h : Database.new c = .ok start)
    {actions : List Action} (hallowed : ∀ a ∈ actions, a.Allowed)
    (hheaders : ∀ a ∈ actions, a.toCommand.LeavesHeaders)
    (hlive : start.Throughout (fun db c => ∀ id ∈ c.propertiesOf?, db.isLive id = true)
      (actions.map Action.toCommand)) {id : ObjectId} :
    let db := Database.run (actions.map Action.toCommand) start
    answer (Database.destroy id : Edit Bool) db = .ok false →
      after (Database.destroy id : Edit Bool) db = db := by
  intro db hr
  have hanchored : db.Anchored := Database.anchored_run h (by simpa using hheaders)
  obtain ⟨hc, rfl⟩ := Database.new_eq_ok h
  have hattributed : db.Attributed :=
    ((Database.reflects_empty hc).run hallowed hlive).1.attributed
  have hs := hattributed.sound
  have hrefused := (Database.refuses_iff hs).1 hr
  cases hid : db.registry.isScopeOwner id with
  | true =>
    rw [hid, if_pos rfl] at hrefused
    exact after_ok (Database.destroy_of_closed hid hrefused)
  | false =>
    rw [hid, if_neg Bool.false_ne_true, Bool.eq_false_iff, Ne, Database.isLive_iff hs] at hrefused
    refine (Database.destroy_eq_self_iff hs hid hrefused).2
      ⟨hattributed.properties?_eq_none hrefused, ?_⟩
    rw [Option.eq_none_iff_forall_ne_some]
    exact fun i hi => hrefused (hanchored.live id i hi)

end DesignStore
