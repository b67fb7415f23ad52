/-
A database that was reset.

Resetting drops everything but the configuration and the number of tags that were handed out.  So
what is left is the new database of the configuration with the tags shifted by that number
(`shift_empty`), and a script is answered as the new database answers it, with the tags shifted
(`reset_leaves_no_residue`).

That no tag starts over at 1 in these answers is seen from the new database alone.  Its answers stay
the same if the handles of tags that it has not handed out are exchanged, so there are none of these
in them (`used_of_play_empty`).
-/
import DesignStore.Proofs.Partwise
import DesignStore.Proofs.TagShift

namespace DesignStore

/-! ## The configuration -/

namespace Database

def SameConfig (db db' : Database) : Prop :=
  db'.config = db.config ∧ db'.registry.config = db.registry.config

instance : IsPreorder Database SameConfig where
  refl _ := ⟨rfl, rfl⟩
  trans _ _ _ h h' := ⟨h'.1.trans h.1, h'.2.trans h.2⟩

theorem sameConfig_onHierarchy {α : Type} (x : EStateM (Failure DbError) Hierarchy α) :
    Keeps SameConfig (onHierarchy x) := by
  intro db
  rw [after_onHierarchy]
  exact ⟨rfl, rfl⟩

theorem sameConfig_partwise : Partwise SameConfig where
  registry hx db := by
    rw [after_onRegistry]
    exact ⟨rfl, hx db.registry⟩
  insert _ := sameConfig_onHierarchy _
  delete _ := sameConfig_onHierarchy _
  place _ _ := sameConfig_onHierarchy _
  active _ _ _ := ⟨rfl, rfl⟩
  scopes _ _ := ⟨rfl, rfl⟩
  closeScope db owner := by
    cases ho : db.scope? owner with
    | none =>
      rw [closeScope_of_none ho]
      exact ⟨rfl, rfl⟩
    | some scope =>
      rw [closeScope_of_scope ho]
      exact ⟨rfl, Registry.config_removePool scope.tag db.registry⟩
  reset _ := ⟨rfl, rfl⟩

/-- A database keeps the configuration it was made with. -/
theorem config_run {c : StoreConfig} {start : Database} (h : Database.new c = .ok start)
    (cmds : List Command) :
    (Database.run cmds start).config = c ∧ (Database.run cmds start).registry.config = c.pool := by
  obtain ⟨_, rfl⟩ := new_eq_ok h
  exact sameConfig_partwise.run cmds (Database.empty c)

end Database

/-! ## New databases -/

theorem eq_of_map_eq {α : Type} {f : α → α} {l : List α} (h : l.map f = l) : ∀ a ∈ l, f a = a :=
  List.map_inj_left.1 (h.trans (List.map_id l).symm)

namespace Renaming

open Script

variable {r : Renaming} {c : StoreConfig}

theorem tame_empty : r.TameDatabase (Database.empty c) :=
  ⟨fun _ hp => False.elim (List.not_mem_nil hp), fun _ hs => False.elim (List.not_mem_nil hs)⟩

theorem database_empty :
    r.database (Database.empty c) =
      { Database.empty c with registry := { Registry.empty c.pool with issued := r.offset } } := by
  have hhierarchy : r.hierarchy Hierarchy.empty = Hierarchy.empty := by
    simp [hierarchy, Hierarchy.empty, Assoc.bimap, r.null]
  simp [database, Database.empty, Registry.empty, registry, hhierarchy, Assoc.bimap]

/-- The handles and scopes in the answers of a new database are of tags that it has handed out. -/
theorem used_of_play_empty (script : List (Call Ref))
    (hmax : (play script [] (Database.empty c)).2.registry.issued ≤ Registry.maxScopes) :
    ∀ a ∈ (play script [] (Database.empty c)).1,
      (∀ id ∈ a.ids, id = ObjectId.null ∨ ∃ t, ScopeTag.of? id = some t ∧
        t.toNat ≤ (play script [] (Database.empty c)).2.registry.issued) ∧
      ∀ t ∈ a.scopeTags, t.val ≠ 0 ∧
        t.toNat ≤ (play script [] (Database.empty c)).2.registry.issued := by
  have htame : (probe hmax).TameDatabase (Database.empty c) := tame_empty
  obtain ⟨_, htags⟩ := used_of_play script [] htame (Nat.le_refl _)
  have hplay := play_database script [] htame (Nat.le_refl _)
  rw [show (probe hmax).database (Database.empty c) = Database.empty c from database_empty] at hplay
  have hanswer := eq_of_map_eq (congrArg Prod.fst hplay).symm
  refine fun a ha => ⟨fun x hx => ?_, htags a ha⟩
  have hids : a.ids.map (probe hmax).id = a.ids := by rw [← ids_answer, hanswer a ha]
  exact used_of_probe (eq_of_map_eq hids x hx)

theorem reset_eq {start : Database} (h : Database.new c = .ok start) (cmds : List Command) :
    (Database.run cmds start).reset =
      { Database.empty c with registry :=
        { Registry.empty c.pool with issued := (Database.run cmds start).registry.issued } } := by
  obtain ⟨hconfig, hpool⟩ := Database.config_run h cmds
  rw [Database.reset, hconfig, Registry.clear, hpool]
  rfl

/-- The reset database is the new one with its tags shifted. -/
theorem shift_empty {start : Database} (h : Database.new c = .ok start) (cmds : List Command)
    (hmax : (Database.run cmds start).registry.issued ≤ Registry.maxScopes) :
    (shift (Database.run cmds start).registry.issued).database start =
      (Database.run cmds start).reset := by
  have hoffset : (shift (Database.run cmds start).registry.issued).offset =
      (Database.run cmds start).registry.issued := Nat.min_eq_left hmax
  rw [reset_eq h]
  obtain ⟨_, rfl⟩ := Database.new_eq_ok h
  rw [database_empty, hoffset]

/-- A tag that was handed out before is that of no pool of a shifted database. -/
theorem pool?_shift {n : Nat} {db : Database} (ht : (shift n).TameDatabase db) {t : ScopeTag}
    (hn : t.toNat ≤ n) : ((shift n).database db).registry.pool? t = none := by
  refine List.find?_eq_none.2 fun p hp => ?_
  obtain ⟨q, hq, rfl⟩ := List.mem_map.1 hp
  obtain ⟨hval, hlast⟩ := (ht.registry q hq).used
  have hlast : q.scope.toNat ≤ Registry.maxScopes - n := hlast
  have hpos : q.scope.toNat ≠ 0 := fun h0 => hval (UInt16.toNat_inj.1 h0)
  have htag := (digits_shift n).toNat_onTag q.scope
  rw [shiftTag, if_neg hpos, Registry.maxScopes] at htag
  rw [Registry.maxScopes] at hlast
  rw [decide_eq_true_eq]
  intro he
  have heq : (onTag (shiftTag n) q.scope).toNat = t.toNat := congrArg ScopeTag.toNat he
  omega

end Renaming

theorem Database.reads_of_no_pool {db : Database} {id : ObjectId}
    (h : db.registry.lookup? id = none) :
    db.isLive id = false ∧ db.inspect? id = none ∧ ∀ k, db.resolve k id = .ok none := by
  have hinspect : db.inspect? id = none := by
    show (db.registry.lookup? id).bind (·.inspect? id) = none
    rw [h, Option.bind_none]
  have hheader : db.header? id = none := by
    show (db.registry.lookup? id).bind (·.header? id) = none
    rw [h, Option.bind_none]
  refine ⟨?_, hinspect, fun k => ?_⟩
  · rw [Database.isLive, hheader]
    rfl
  · rw [Database.resolve, h]

/-- A script that is played on a database after a reset is answered as a new database of the same
configuration answers it, with the tags shifted by the number of the pools that were ever created
before; that number is added to the tag of every handle and scope in the answers, as long as the
tags suffice.  The first position that is handed out is 1 again, and no handle that was given out
before the reset names a record. -/
theorem reset_leaves_no_residue {c : StoreConfig} {start : Database}
    (h : Database.new c = .ok start) (cmds : List Command)
    (script : List (Script.Call Script.Ref))
    (hfits : (Database.run cmds start).registry.issued +
      (Script.play script [] start).2.registry.issued ≤ Registry.maxScopes) :
    let db := Database.run cmds start
    let n := db.registry.issued
    let fresh := Script.play script [] start
    let again := Script.play script [] db.reset
    again.1 = fresh.1.map (Renaming.shift n).answer ∧
      (∀ a ∈ fresh.1,
        (∀ id ∈ a.ids, id = ObjectId.null ∨
          (Renaming.shift n).id id = ⟨id.raw + (UInt64.ofNat n <<< 48)⟩) ∧
        ∀ t ∈ a.scopeTags, (Renaming.shift n).tag t = ⟨t.val + UInt16.ofNat n⟩) ∧
      (∀ id, id ≠ ObjectId.null →
        ∃ hierarchy, (Hierarchy.insert id : EStateM (Failure DbError) Hierarchy _)
          db.reset.hierarchy = .ok ⟨1⟩ hierarchy) ∧
      ∀ m ∈ (Session.run cmds (Session.start start)).minted,
        again.2.isLive m.id = false ∧ again.2.inspect? m.id = none ∧
          ∀ k, again.2.resolve k m.id = .ok none := by
  intro db n fresh again
  have hstart := (Database.new_eq_ok h).2
  have hmax : n ≤ Registry.maxScopes := (Nat.le_add_right _ _).trans hfits
  have hlast : fresh.2.registry.issued ≤ (Renaming.shift n).last :=
    Nat.le_sub_of_add_le (by rwa [Nat.add_comm] at hfits)
  have htame : (Renaming.shift n).TameDatabase start := hstart ▸ Renaming.tame_empty
  have hplay : again = (fresh.1.map (Renaming.shift n).answer, (Renaming.shift n).database fresh.2) :=
    (congrArg (Script.play script []) (Renaming.shift_empty h cmds hmax).symm).trans
      (Renaming.play_database script [] htame hlast)
  refine ⟨congrArg Prod.fst hplay, fun a ha => ?_, fun id hid => ?_, fun m hm => ?_⟩
  · subst hstart
    obtain ⟨hids, htags⟩ := Renaming.used_of_play_empty script
      ((Nat.le_add_left _ _).trans hfits) a ha
    refine ⟨fun id hid => (hids id hid).imp_right ?_, fun t ht => ?_⟩
    · rintro ⟨t, ht, hle⟩
      exact Renaming.shift_id ht ((Nat.add_le_add_left hle n).trans hfits)
    · obtain ⟨hpos, hle⟩ := htags t ht
      exact Renaming.shift_tag hpos ((Nat.add_le_add_left hle n).trans hfits)
  · have hnull : ¬ id.isNull = true := fun he => hid (Hierarchy.isNull_iff.1 he)
    have hroom : ¬ UInt32.size ≤ Hierarchy.empty.owners.size := by decide
    exact ⟨_, (if_neg hnull).trans (if_neg hroom)⟩
  · obtain ⟨hg, _, _⟩ := Session.onward_run cmds _ (Session.good_start h)
    have hholds := hg.holds m hm
    rw [Session.run_db] at hholds
    obtain ⟨k, hk, hscope, _⟩ := hholds.key
    obtain ⟨k', hk', hissued, _⟩ := hholds.spent
    cases hk.symm.trans hk'
    obtain ⟨htame', _⟩ := Renaming.used_of_play script [] htame hlast
    have hpool := Renaming.pool?_shift htame' hissued
    refine Database.reads_of_no_pool ?_
    rw [hplay]
    show (ScopeTag.of? m.id).bind _ = none
    rw [SlotKey.of?_of_unpack? hk]
    exact hpool

/-- Two pools were created before the reset.  The script after it is given the handles that it is
answered itself, and reads the scopes. -/
theorem reset_leaves_no_residue_after_two :
    let top := Session.firstPage 1 .cell 0 0
    let cmds : List Command := [.initTopCell "top", .createHierCell top "block"]
    let script : List (Script.Call Script.Ref) :=
      [.initTopCell "next", .create .inst .inst (.answered 0), .read (.owner (.answered 1)),
        .createHierCell (.answered 0) "block", .setOwner (.answered 1) .null, .read .scopes]
    let db := Database.run cmds (Database.empty {})
    db.registry.issued = 2 ∧ (Script.play script [] (Database.empty {})).1.length = 6 ∧
      (Script.play script [] db.reset).1 =
        (Script.play script [] (Database.empty {})).1.map (Renaming.shift 2).answer := by
  intro top cmds script db
  have hissued : db.registry.issued = 2 := by decide +kernel
  have hlength : (Script.play script [] (Database.empty {})).1.length = 6 := by decide +kernel
  have hfits : db.registry.issued + (Script.play script [] (Database.empty {})).2.registry.issued ≤
      Registry.maxScopes := by decide +kernel
  refine ⟨hissued, hlength, ?_⟩
  have hreset := (reset_leaves_no_residue (c := {}) rfl cmds script hfits).1
  rwa [hissued] at hreset

end DesignStore
