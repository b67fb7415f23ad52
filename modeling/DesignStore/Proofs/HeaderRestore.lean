/-
Headers that are written out and taken over again.

A header is written out with the position of its owner as a 64-bit number, wider than positions are.
It is taken over where the scope being restored is at that position, as such a number; no scope
stands for position 0 (`restore_eq`).  So a header that was written out is taken over under the
position it carries and under no other.

A live record has its own handle in its header, as long as nothing is written to that, since the
pools stamp it (`id_of_header?`).  So the header that is written out for a record names the record.
-/
import DesignStore.Proofs.Accounts
import DesignStore.Proofs.Upkeep

namespace DesignStore

/-! ## Headers -/

/-- Why a header is not taken over. -/
def PersistedHeader.mismatch (p : PersistedHeader) : Option ObjectIndex → Fault
  | some c => .foreignOwner p.owner c p.id
  | none => .ownerWithoutScope p.owner p.id

namespace Header

/-- The position of the scope being restored.  No scope stands for position 0. -/
def context (c : Option ObjectIndex) : ObjectIndex :=
  c.getD ObjectIndex.invalid

theorem restore_eq (g : Header) (p : PersistedHeader) (c : Option ObjectIndex) :
    g.restore p c =
      if p.owner = (context c).val.toUInt64 then .ok { g with owner := context c, id := ⟨p.id⟩ }
      else .error (p.mismatch c) := by
  cases c <;> rfl

variable {g g' h : Header} {p : PersistedHeader} {c : Option ObjectIndex}

theorem restore_of_eq (hp : p.owner = (context c).val.toUInt64) :
    g.restore p c = .ok { g with owner := context c, id := ⟨p.id⟩ } := by
  rw [restore_eq, if_pos hp]

theorem restore_of_ne (hp : p.owner ≠ (context c).val.toUInt64) :
    g.restore p c = .error (p.mismatch c) := by
  rw [restore_eq, if_neg hp]

theorem restore_eq_ok_iff : g.restore p c = .ok g' ↔
    p.owner = (context c).val.toUInt64 ∧ g' = { g with owner := context c, id := ⟨p.id⟩ } := by
  by_cases hp : p.owner = (context c).val.toUInt64
  · simp [restore_of_eq hp, hp, eq_comm]
  · simp [restore_of_ne hp, hp]

theorem exists_restore_iff :
    (∃ g', g.restore p c = .ok g') ↔ p.owner = (context c).val.toUInt64 := by
  simp [restore_eq_ok_iff]

/-- Positions are the same if they are as 64-bit numbers. -/
theorem restore_externalize_iff : g.restore h.externalize c = .ok g' ↔
    context c = h.owner ∧ g' = { g with owner := h.owner, id := h.id } := by
  have howner : h.externalize.owner = (context c).val.toUInt64 ↔ context c = h.owner := by
    rw [externalize, UInt32.toUInt64_inj, eq_comm]
    exact ⟨fun he => congrArg ObjectIndex.mk he, fun he => congrArg ObjectIndex.val he⟩
  rw [restore_eq_ok_iff, howner]
  refine and_congr_right fun hc => ?_
  rw [hc]
  rfl

theorem same_iff (g h : Header) :
    g.same h = true ↔ g.id = h.id ∧ g.owner = h.owner ∧ g.type = h.type := by
  simp [same, and_assoc]

end Header

/-! ## Headers of live records -/

namespace Pool

variable {p : Pool} {id : ObjectId}

/-- The header of a live record names the place at which the record is found. -/
theorem Counted.id_of_header? (h : p.Counted) {hd : Header} (hh : p.header? id = some hd) :
    hd.id = id := by
  cases hkey : p.key? id with
  | none => simp [header?, inspect?, hkey] at hh
  | some key =>
    obtain ⟨b, r, hb, hget, rfl⟩ := exists_of_header? hkey hh
    have hnames := h.sound.names hkey hb
    obtain ⟨hv, hs⟩ := (Arena.get?_eq_some_iff hnames).1 hget
    have hid := (h.arena b (List.mem_of_find?_eq_some hb)).stamped hs hv
    rw [hid, ← SlotKey.pack_of_unpack? (key?_eq_some_iff.1 hkey).1]
    rw [Arena.keyAt, ← hnames.1, ← hnames.2]

end Pool

namespace Database

open Registry

variable {ε : Type} {db : Database} {id : ObjectId} {hd hd' : Header} {e : HeaderEdit}

theorem id_of_header? (h : db.registry.Counted) (hh : db.header? id = some hd) : hd.id = id := by
  obtain ⟨p, hp, hh⟩ := Option.bind_eq_some_iff.1 hh
  obtain ⟨s, _, hp⟩ := Option.bind_eq_some_iff.1 hp
  exact (h.pool p (List.mem_of_find?_eq_some hp)).id_of_header? hh

/-- A header edit that is a fault changes nothing. -/
theorem editHeader_of_fault (hh : db.header? id = some hd) {f : Fault}
    (he : e.apply hd = .error f) :
    (editHeader id e : EStateM (Failure ε) Database _) db = .error (.fault f) db := by
  obtain ⟨p, hp, hh⟩ := Option.bind_eq_some_iff.1 hh
  obtain ⟨s, hs, hp⟩ := Option.bind_eq_some_iff.1 hp
  have hx : (Pool.editHeader id e : EStateM (Failure ε) Pool _) p = .error (.fault f) p := by
    simp only [Pool.editHeader, hh, he]
  have hfirst := onFirst_of_error hp hx
  simp only [editHeader, map_apply, onRegistry_eq, onIssuer, hs, onPool_eq, hfirst]

theorem editHeader_of_ok (h : db.registry.Sound) (hh : db.header? id = some hd)
    (he : e.apply hd = .ok hd') (hv : hd'.isValid = hd.isValid) :
    ∃ a db', (editHeader id e : EStateM (Failure ε) Database _) db = .ok a db' ∧
      db'.header? id = some hd' := by
  have hpool (p : Pool) (hp : db.registry.lookup? id = some p) :
      ∃ a t, (Pool.editHeader id e : EStateM (Failure ε) Pool _) p = .ok a t := by
    have hh : p.header? id = some hd := by rwa [header?, hp] at hh
    simp only [Pool.editHeader, hh, he]
    exact Pool.modifyHeader_ok (h.of_lookup? hp) id _
  obtain ⟨a, ha⟩ := onIssuer_ok (r := db.registry) id hpool
  have ht := touches_editHeader (ε := ε) h id e
  refine ⟨a.join, { db with registry := after (onIssuer id (Pool.editHeader (ε := ε) id e)) db.registry },
    by simp only [editHeader, map_apply, onRegistry_eq, ha], ?_⟩
  rw [header?_eq h] at hh
  obtain ⟨o, ho, rfl⟩ := Option.map_eq_some_iff.1 hh
  obtain ⟨ho, hvalid⟩ := Option.filter_eq_some_iff.1 ho
  have hperform : e.perform o.record.header = hd' := by simp only [HeaderEdit.perform, he]
  have hvalid' : ({ o with record := Change.header e.perform o.kind o.record } :
      Occupant).isValid = true := by
    show (e.perform o.record.header).isValid = true
    rw [hperform, hv]
    exact hvalid
  have hrecord := ht.record? id
  rw [if_pos rfl, ho, Option.map_some, Occupant.apply_of_valid hvalid] at hrecord
  rw [header?_eq ht.sound, hrecord, Option.filter_some, if_pos hvalid', Option.map_some]
  exact congrArg some hperform

end Database

/-! ## Writing out and taking over -/

/-- A persisted header is taken over in a context, or it is refused. -/
structure Header.Restores (g : Header) (p : PersistedHeader) (c : Option ObjectIndex) : Prop where
  succeeds : (∃ g', g.restore p c = .ok g') ↔ p.owner = (context c).val.toUInt64
  taken : ∀ g', g.restore p c = .ok g' →
    g'.id.raw = p.id ∧ g'.owner.val.toUInt64 = p.owner ∧ g'.type = g.type ∧ g'.flags = g.flags
  refused : p.owner ≠ (context c).val.toUInt64 → g.restore p c = .error (p.mismatch c)

theorem Header.restores (g : Header) (p : PersistedHeader) (c : Option ObjectIndex) :
    g.Restores p c where
  succeeds := exists_restore_iff
  taken g' hg := by
    obtain ⟨howner, rfl⟩ := restore_eq_ok_iff.1 hg
    exact ⟨rfl, howner.symm, rfl, rfl⟩
  refused := restore_of_ne

/-- What was written out for a header is taken over into another one. -/
structure Header.RoundTrip (h g : Header) (c : Option ObjectIndex) : Prop where
  succeeds : (∃ g', g.restore h.externalize c = .ok g') ↔ context c = h.owner
  same : ∀ g', g.restore h.externalize c = .ok g' →
    g'.externalize = h.externalize ∧ (g'.same h = true ↔ g.type = h.type)

theorem Header.roundTrip (h g : Header) (c : Option ObjectIndex) : h.RoundTrip g c where
  succeeds := by simp [restore_externalize_iff]
  same g' hg := by
    obtain ⟨_, rfl⟩ := restore_externalize_iff.1 hg
    exact ⟨rfl, by simp [same_iff]⟩

/-- What is written out for the header of a live record, and what the record takes over. -/
structure Database.Persists (db : Database) (id : ObjectId) (hd : Header) : Prop where
  externalize : db.externalize? id = some hd.externalize
  /-- Under the position of the owner, a blank header takes over handle and position. -/
  restored : ({} : Header).restore hd.externalize (some hd.owner) =
    .ok { id := hd.id, owner := hd.owner }
  taken : ∀ p c, p.owner = (Header.context c).val.toUInt64 → ∃ a db',
    (editHeader id (.restore p c) : Edit _) db = .ok a db' ∧
      db'.header? id = some { hd with owner := Header.context c, id := ⟨p.id⟩ }
  refused : ∀ p c, p.owner ≠ (Header.context c).val.toUInt64 →
    (editHeader id (.restore p c) : Edit _) db = .error (.fault (p.mismatch c)) db

theorem Database.persists {db : Database} {id : ObjectId} {hd : Header} (h : db.registry.Sound)
    (hh : db.header? id = some hd) : db.Persists id hd where
  externalize := by rw [externalize?, hh, Option.map_some]
  restored := Header.restore_externalize_iff.2 ⟨rfl, rfl⟩
  taken _ _ hp := editHeader_of_ok h hh (Header.restore_of_eq hp) rfl
  refused _ _ hp := editHeader_of_fault hh (Header.restore_of_ne hp)

/-- A header takes over what was persisted, its type and its status apart, if that was persisted
under the position of the context, as a 64-bit number, where no context stands for position 0.  In
all other cases that is a fault, by which no header changes.  So what was written out for a header
is taken over under the position of its owner only, and what is then written out is the same; the
headers are the same if they have the same type.  Of every live record in a database that is so too,
and as long as nothing is written to handles and hierarchies are not restored, what is written out
are the handle of the record and the position at which its owner is found. -/
theorem restore_undoes_externalize {c : StoreConfig} {start : Database}
    (h : Database.new c = .ok start) (cmds : List Command) :
    (∀ (g : Header) p c, g.Restores p c) ∧ (∀ (h g : Header) c, h.RoundTrip g c) ∧
      let db := Database.run cmds start
      ∀ id hd, db.header? id = some hd → db.Persists id hd ∧
        ((∀ c ∈ cmds, c.Writes Pool.Use.Discreet) → hd.id = id) ∧
        ((∀ l, .restoreHierarchy l ∉ cmds) → ∀ o, db.ownerId? id = some o →
          db.hierarchy.indexOf? o = some hd.owner) := by
  refine ⟨Header.restores, Header.roundTrip, fun id hd hh =>
    ⟨Database.persists (Database.laid_run h cmds).sound hh, fun hcmds => ?_, fun hcmds o ho => ?_⟩⟩
  · exact Database.id_of_header? (Database.counted_run h hcmds) hh
  · rw [Database.ownerId?, hh] at ho
    exact (Database.tidy_run h hcmds).paired.idAt?_eq_some_iff.1 ho

/-- A pin of the top cell is written out, and taken over under the position of the top cell.  Under
that of the library it is refused. -/
theorem restore_undoes_externalize_sample :
    let top := Session.firstPage 1 .cell 0 0
    let pin := Session.firstPage 1 .pin 0 0
    let cmds : List Command := [.initTopCell "top", .initTechLib, .create .pin .pin top]
    let db := Database.run cmds (Database.empty {})
    let p : PersistedHeader := { owner := 1, id := pin.raw }
    Database.new {} = .ok (Database.empty {}) ∧ db.externalize? pin = some p ∧
      ({} : Header).restore p (db.hierarchy.indexOf? top) = .ok { id := pin, owner := ⟨1⟩ } ∧
      ({} : Header).restore p (some ⟨2⟩) = .error (.foreignOwner 1 ⟨2⟩ pin.raw) := by
  intro top pin cmds db p
  obtain ⟨hrestores, _, hdb⟩ := restore_undoes_externalize (c := {}) rfl cmds
  have hexternalize : db.externalize? pin = some p := by decide +kernel
  have howner : db.ownerId? pin = some top := by decide +kernel
  obtain ⟨hd, hh, hp⟩ := Option.map_eq_some_iff.1 hexternalize
  obtain ⟨hpersists, hid, hindex⟩ := hdb pin hd hh
  have hid : hd.id = pin := hid (by simp [cmds, Command.Writes])
  have hindex := hindex (by simp [cmds]) top howner
  have hrestored := hpersists.restored
  rw [hp] at hrestored
  have h1 : hd.owner = ⟨1⟩ := Option.some.inj (hindex.symm.trans (by decide +kernel))
  refine ⟨rfl, hexternalize, ?_, (hrestores {} p (some ⟨2⟩)).refused (by decide)⟩
  rw [show db.hierarchy.indexOf? top = some hd.owner from hindex, hrestored, hid, h1]

end DesignStore
