/-
The names of cells.

A cell notes its name as a position in a table of symbols.  Whose table that is, is found anew
each time the name is read: it is that of the scope the cell belongs to then.  Tables only grow,
so in the scope where the cell was named the position means the name for good (`Named`), and
the cell has its name as long as it belongs to that scope (`cellName_lasts`).  A cell that owns a
scope always belongs to it.  Any other cell can be moved to another scope, and then its position
is read in a table that it was not made for.

What is noted is the position cut to 32 bits.  So the table is to have no more names than there are
words when the cell is named; how it grows later does not matter.
-/
import DesignStore.Proofs.CellCreation
import DesignStore.Proofs.Endurance
import DesignStore.Proofs.OwnerChain
import DesignStore.Proofs.SymbolTable

namespace DesignStore

/-! ## Tables of symbols -/

namespace SymbolTable

variable {ε α : Type} {t t' : SymbolTable} {name : String} {i : SymbolIndex} {pos : Nat}

/-- Names keep their positions. -/
def Extends (t t' : SymbolTable) : Prop :=
  t.columns.names <+: t'.columns.names

instance : IsPreorder SymbolTable Extends where
  refl _ := List.prefix_rfl
  trans _ _ _ h h' := h.trans h'

theorem Extends.getElem? (h : Extends t t') (hname : t.columns.names[pos]? = some name) :
    t'.columns.names[pos]? = some name := by
  obtain ⟨new, hnew⟩ := h
  rwa [← hnew, List.getElem?_append_left (List.getElem?_eq_some_iff.1 hname).1]

/-- The name that is interned is at a position, of which the symbol is answered. -/
theorem exists_of_intern (h : (intern name : EStateM ε SymbolTable _) t = .ok i t') :
    (∃ pos : Nat, t'.columns.names[pos]? = some name ∧ ⟨pos⟩ = i) ∧ Extends t t' := by
  cases hf : t.find? name with
  | some j =>
    cases (intern_of_some hf).symm.trans h
    obtain ⟨pos, hpos, hi⟩ := Option.map_eq_some_iff.1 hf
    obtain ⟨hlt, hname, _⟩ := Array.findIdx?_eq_some_iff_getElem.1 hpos
    refine ⟨⟨pos, ?_, hi⟩, refl_of Extends t⟩
    rw [getElem?_names, Array.getElem?_eq_getElem hlt]
    exact congrArg some (of_decide_eq_true hname)
  | none =>
    cases (intern_of_none hf).symm.trans h
    rw [Extends, columns_push]
    refine ⟨⟨t.size, ?_, rfl⟩, List.prefix_append ..⟩
    rw [← length_names, List.getElem?_concat_length]

theorem extends_addReference (i : SymbolIndex) (id : ObjectId) :
    Keeps Extends (addReference i id : EStateM ε SymbolTable Bool) := by
  intro t
  by_cases hi : (i.val : Nat) < t.size
  · rw [after_ok (addReference_of_lt hi id), Extends, columns_modify t hi]
  · rw [after_ok (addReference_of_not_lt hi id)]
    exact refl_of Extends t

end SymbolTable

/-- The symbol that a cell is named by. -/
def RecordKind.name? : (k : RecordKind) → k.Body → Option SymbolIndex
  | .cell, c => (c : Cell).name
  | _, _ => none

namespace Entry

def name? (e : Entry) : Option SymbolIndex :=
  e.kind.name? e.record.body

theorem name?_of_content {e e' : Entry} (h : e'.content = e.content) : e'.name? = e.name? :=
  congrArg (fun c : (k : RecordKind) × k.Body => c.1.name? c.2) h

theorem cell_of_name? {e : Entry} {symbol : SymbolIndex} (h : e.name? = some symbol) :
    ∃ c : Record Cell, e = { kind := .cell, record := c } ∧ c.body.name = some symbol := by
  obtain ⟨k, x⟩ := e
  cases k with
  | cell => exact ⟨x, rfl, h⟩
  | _ => contradiction

end Entry

namespace Command

/-- The commands that write no name to a cell by hand, and take no symbol its name. -/
def LeavesNames (cell : ObjectId) : Command → Prop
  | .write k id f => id = cell → ∀ x, k.name? (f x).body = k.name? x.body
  | .symbols _ x => Keeps SymbolTable.Extends x
  | _ => True

end Command

namespace Database

open Registry

variable {db db' : Database} {cell root id : ObjectId} {pos : Nat} {name : String}
  {s : StorageScope}

/-! ## Cells and their symbols -/

/-- The cell notes the symbol of a position, at which the name is in the scope of `root`. -/
structure Named (cell root : ObjectId) (pos : Nat) (name : String) (db : Database) : Prop where
  anchored : db.Anchored
  cell_spent : db.registry.Spent cell
  root_spent : db.registry.Spent root
  noted : ∀ e, db.registry.stored? cell = some e → e.name? = some ⟨pos⟩
  means : ∀ s ∈ db.scopes, s.owner = root → s.symbols.columns.names[pos]? = some name
  owns : root = cell → db.registry.Live cell → db.registry.isScopeOwner cell = true

/-- A scope owner that is live owns the scope it owned before. -/
theorem Spares.isScopeOwner_of_live {D : ObjectId → Prop} (ha : db.Anchored) (ha' : db'.Anchored)
    (h : Spares D db db') (hid : db.registry.isScopeOwner id = true)
    (hl : db'.registry.Live id) : db'.registry.isScopeOwner id = true := by
  obtain ⟨s, hs, rfl⟩ := ha.exists_scope hid
  rcases h.closed s hs with ⟨t, ht, howner, _⟩ | ⟨hn, _⟩
  · exact howner ▸ ha'.isScopeOwner_of_mem ht
  · exact absurd hl hn

/-- Where tables are changed and only grow, each scope is one there was, with a table that has
grown. -/
theorem exists_of_onSymbols {ε α : Type} {x : EStateM (Failure ε) SymbolTable α}
    (hx : Keeps SymbolTable.Extends x) (id : ObjectId)
    (hs : s ∈ (after (onStorageScope id (StorageScope.onSymbols x)) db).scopes) :
    ∃ t ∈ db.scopes, t.owner = s.owner ∧ SymbolTable.Extends t.symbols s.symbols := by
  have hself : ∀ t ∈ db.scopes, ∃ u ∈ db.scopes, u.owner = t.owner ∧
      SymbolTable.Extends u.symbols t.symbols :=
    fun t ht => ⟨t, ht, rfl, refl_of SymbolTable.Extends t.symbols⟩
  rcases after_onStorageScope id (StorageScope.onSymbols x) db with hr | ⟨_, _, hr⟩
  · rw [hr] at hs
    exact hself s hs
  · rw [hr, after_onScopeWhere] at hs
    refine forall_after_onFirst (fun t _ ht => ?_) hself s hs
    obtain ⟨u, hu, howner, hut⟩ := ht
    rw [after_onSymbols]
    exact ⟨u, hu, howner, trans_of SymbolTable.Extends hut (hx t.symbols)⟩

namespace Named

/-- Names that are given in other symbols leave it. -/
theorem onSymbols {ε α : Type} {x : EStateM (Failure ε) SymbolTable α}
    (hx : Keeps SymbolTable.Extends x) (id : ObjectId) (h : Named cell root pos name db) :
    Named cell root pos name (after (onStorageScope id (StorageScope.onSymbols x)) db) := by
  have ha := h.anchored.of_places
    (alike_onStorageScope id (onTables_onSymbols x) db h.anchored.sound)
  have hmeans (s : StorageScope)
      (hs : s ∈ (after (onStorageScope id (StorageScope.onSymbols x)) db).scopes)
      (howner : s.owner = root) : s.symbols.columns.names[pos]? = some name := by
    obtain ⟨t, ht, hto, hts⟩ := exists_of_onSymbols hx id hs
    exact hts.getElem? (h.means t ht (hto.trans howner))
  refine ⟨ha, ?_, ?_, ?_, hmeans, ?_⟩ <;> rw [registry_after_onStorageScope]
  · exact h.cell_spent
  · exact h.root_spent
  · exact h.noted
  · exact h.owns

/-- So do writes to records that write no other name to the cell. -/
theorem write {ε : Type} {k : RecordKind} {f : Record k.Body → Record k.Body}
    (hheader : ∀ x, (f x).header = x.header)
    (hf : id = cell → ∀ x, db.registry.stored? cell = some { kind := k, record := x } →
      k.name? (f x).body = k.name? x.body) (h : Named cell root pos name db) :
    Named cell root pos name (after (update k id f : EStateM (Failure ε) Database _) db) := by
  have ha := anchored_of_follows (follows_write (ε := ε) hheader id) h.anchored
  obtain ⟨r, hr, ht⟩ := after_update (ε := ε) h.anchored.sound k id f
  rw [hr] at ha ⊢
  have hs := ht.stores fun _ _ hv =>
    Occupant.isValid_write (fun y => congrArg Header.isValid (hheader y)) hv
  refine ⟨ha, h.cell_spent.mono hs.evolves, h.root_spent.mono hs.evolves, fun e he => ?_, h.means,
    fun hrc hl => ?_⟩
  · by_cases hid : cell = id
    · obtain ⟨e', he', rfl⟩ := Option.map_eq_some_iff.1 (hs.self.symm.trans (hid ▸ he))
      have hname := h.noted e' (hid ▸ he')
      obtain ⟨k', x⟩ := e'
      by_cases hk : k' = k
      · subst hk
        rw [Entry.change_write_self]
        exact (hf hid.symm x (hid ▸ he')).trans hname
      · rwa [Entry.change, Change.write_other hk]
    · exact h.noted e ((hs.other hid).symm.trans he)
  · rw [isScopeOwner, hs.owners]
    exact h.owns hrc ((Evolves.refl h.anchored.sound).live_between hs.evolves h.cell_spent hl)

end Named

/-- The cell keeps its symbol as long as no other is written to it. -/
theorem endures_named (cell root : ObjectId) (pos : Nat) (name : String) :
    Endures (fun _ => True) (fun k id f => id = cell → ∀ b, k.name? (f b) = k.name? b)
      (Named cell root pos name) where
  anchored := Named.anchored
  spares := by
    intro db db' h ha' hs
    have hlive (hl : db'.registry.Live cell) : db.registry.Live cell :=
      (Evolves.refl h.anchored.sound).live_between hs.evolves h.cell_spent hl
    refine ⟨ha', h.cell_spent.mono hs.evolves, h.root_spent.mono hs.evolves, fun e he => ?_,
      fun s hmem howner => ?_, fun hrc hl => ?_⟩
    · obtain ⟨e', he', hc⟩ := hs.exists_of_spent h.anchored.sound h.cell_spent he
      rw [← Entry.name?_of_content hc]
      exact h.noted e' he'
    · obtain ⟨t, ht, hto, hts⟩ := hs.symbols s hmem (howner ▸ h.root_spent)
      exact hts ▸ h.means t ht (hto.trans howner)
    · exact hs.isScopeOwner_of_live h.anchored ha' (h.owns hrc (hlive hl)) hl
  write := fun hW _ h => h.write (fun _ => rfl) fun hid x _ => hW hid x.body
  mention := by
    intro id n db h
    refine Named.onSymbols (fun t => ?_) id h
    refine Keeps.bind (R := SymbolTable.Extends) (fun t => ?_) (fun i =>
      (SymbolTable.extends_addReference i id).discard.bind fun _ => Keeps.pure i) t
    cases hi : (SymbolTable.intern n : EStateM (Failure DbError) SymbolTable _) t with
    | ok i t' =>
      rw [after_ok hi]
      exact (SymbolTable.exists_of_intern hi).2
    | error e t' =>
      unfold SymbolTable.intern at hi
      cases hf : t.find? n <;> rw [hf] at hi <;> contradiction
  new := by
    rintro db id k f h hn _ rfl
    exact absurd h.cell_spent hn

/-! ## Naming a cell -/

/-- Makes a cell and names it. -/
def naming (make : Edit ObjectId) (name : String) : Edit (ObjectId × String) := do
  let id ← make
  discard <| setCellName id name
  return (id, name)

end Database

/-- The cell that a command names, and its name. -/
def Command.named? : Command → Database → Option (ObjectId × String)
  | .setCellName cell name, db => (answer (Database.naming (pure cell) name) db).toOption
  | .createCell parent name, db =>
    (answer (Database.naming (Database.create .cell .cell parent) name) db).toOption
  | .createHierCell parent name, db =>
    (answer (Database.naming (Database.openNested parent) name) db).toOption
  | .initTopCell name, db => (answer (Database.initTopCell name) db).toOption.map (·, name)
  | _, _ => none

namespace Database

open Registry

variable {db db' db'' : Database} {cell root id : ObjectId} {pos : Nat} {symbol : SymbolIndex}
  {name : String} {s : StorageScope}

/-- An answer from the symbols of a scope comes from the scope the record belongs to. -/
theorem onSymbols_some {ε α : Type} {x : EStateM (Failure ε) SymbolTable α} {a : α}
    (h : onStorageScope id (StorageScope.onSymbols x) db = .ok (some a) db') :
    ∃ root s t, db.scopeRoot id = .ok (some root) ∧ db.scope? root = some s ∧
      x s.symbols = .ok a t ∧ db'.scope? root = some { s with symbols := t } := by
  cases hroot : db.scopeRoot id with
  | error f => simp [onStorageScope, hroot] at h
  | ok root =>
    cases root with
    | none => simp [onStorageScope, hroot] at h
    | some root =>
      simp only [onStorageScope, hroot, onScopeWhere] at h
      cases hs : db.scope? root with
      | none =>
        rw [onFirst_of_none (p := fun s : StorageScope => s.owner = root) hs] at h
        simp at h
      | some s =>
        obtain ⟨l₁, l₂, hl, hl₁, howner⟩ := find?_split hs
        rw [hl, onFirst_append hl₁ howner, StorageScope.onSymbols] at h
        cases hx : x s.symbols with
        | error e t => simp [hx] at h
        | ok b t =>
          simp only [hx, EStateM.Result.ok.injEq, Option.some.injEq] at h
          obtain ⟨rfl, rfl⟩ := h
          exact ⟨root, s, t, rfl, hs, hx, find?_append_cons hl₁ howner⟩

theorem exists_of_mention {t t' : SymbolTable} (h : mention name id t = .ok symbol t') :
    ∃ pos : Nat, t'.columns.names[pos]? = some name ∧ ⟨pos⟩ = symbol := by
  obtain ⟨i, u, hi, h⟩ := ok_of_bind h
  obtain ⟨_, v, hv, h⟩ := ok_of_bind h
  obtain ⟨_, hv⟩ := ok_of_discard hv
  cases h
  have hextends := SymbolTable.extends_addReference (ε := Failure DbError) symbol id u
  rw [after_ok hv] at hextends
  obtain ⟨⟨pos, hname, hsymbol⟩, _⟩ := SymbolTable.exists_of_intern hi
  exact ⟨pos, hextends.getElem? hname, hsymbol⟩

/-- A cell that is named belongs to a scope.  First the name is put among the symbols of that,
and then the symbol is noted in the cell. -/
theorem of_setCellName (h : db.Anchored) (hr : setCellName cell name db = .ok symbol db') :
    ∃ (root : ObjectId) (db₁ : Database) (s : StorageScope) (pos : Nat) (c : Record Cell)
      (r : Registry), db.registry.Live cell ∧ db.scopeRoot cell = .ok (some root) ∧ db₁.Anchored ∧
      db₁.scope? root = some s ∧ s.symbols.columns.names[pos]? = some name ∧ ⟨pos⟩ = symbol ∧
      db₁.registry.stored? cell = some { kind := .cell, record := c } ∧
      db' = { db₁ with registry := r } ∧
      Stores cell (some { kind := .cell, record := { c with
        body := { c.body with name := some symbol } } }) [] db₁.registry r := by
  rw [setCellName_eq] at hr
  obtain ⟨found, db₁, hmention, hnoting⟩ := ok_of_bind hr
  cases found with
  | none =>
    obtain ⟨_, _, hfound, _⟩ := ok_of_bind hnoting
    contradiction
  | some i =>
    obtain ⟨_, _, hupdate, hanswer⟩ := ok_of_bind
      (show (updateCell cell (fun c => { c with name := some i }) >>= fun _ => pure i) db₁ = _
        from hnoting)
    cases hanswer
    obtain ⟨root, s, t, hroot, _, hx, hs⟩ := onSymbols_some hmention
    have ha : db₁.Anchored := by
      have hp := alike_onStorageScope cell (onTables_onSymbols (mention name cell)) db h.sound
      rw [after_ok hmention] at hp
      exact h.of_places hp
    obtain ⟨y, _, hwrite, hfound⟩ := ok_of_bind hupdate
    have hcell : ∃ c, db₁.registry.stored? cell = some { kind := .cell, record := c } := by
      cases y with
      | none => contradiction
      | some y => exact stored?_of_update ha.sound hwrite
    obtain ⟨c, hc⟩ := hcell
    obtain ⟨r, hnoted, hst⟩ := updateCell_stores ha.sound hc fun c => { c with name := some symbol }
    cases hnoted.symm.trans hupdate
    have hlive : db.registry.Live cell := by
      rw [← registry_after_onStorageScope cell (StorageScope.onSymbols (mention name cell)) db,
        after_ok hmention]
      exact isSome_stored?_iff.1 (Option.isSome_of_eq_some hc)
    obtain ⟨pos, hname, hsymbol⟩ := exists_of_mention hx
    exact ⟨root, db₁, _, pos, c, r, hlive, hroot, ha, hs, hname, hsymbol, hc, rfl, hst⟩

/-- What is noted as the name of a cell means the name in the scope the cell belongs to. -/
theorem named_of_setCellName (h : db.Anchored) (hr : setCellName cell name db = .ok symbol db') :
    ∃ root pos, db.scopeRoot cell = .ok (some root) ∧ Named cell root pos name db' := by
  obtain ⟨root, db₁, s, pos, c, r, _, hroot, ha, hs, hname, rfl, hc, rfl, hst⟩ :=
    of_setCellName h hr
  obtain ⟨hmem, howner⟩ := of_scope? hs
  have hlive : db₁.registry.Live cell := isSome_stored?_iff.1 (Option.isSome_of_eq_some hc)
  refine ⟨root, pos, hroot, ⟨ha.of_stores hst (fun _ => rfl) fun e he => ?_,
    (ha.sound.spent_of_live hlive).mono hst.evolves,
    (howner ▸ ha.spent s hmem).mono hst.evolves, fun e he => ?_, fun t ht hto => ?_,
    fun hrc _ => ?_⟩⟩
  · cases he
    exact ha.owned cell { kind := .cell, record := c } hc
  · cases hst.self.symm.trans he
    rfl
  · rwa [ha.forest.eq_of_owner ht hmem (hto.trans howner.symm)]
  · rw [isScopeOwner, hst.owners]
    exact (howner.trans hrc) ▸ ha.isScopeOwner_of_mem hmem

/-- A naming that fails leaves the name the cell has. -/
theorem Named.of_setCellName_error (h : Named cell root pos name db) {n : String}
    {e : Failure DbError} (hr : setCellName cell n db = .error e db') :
    Named cell root pos name db' := by
  rw [setCellName_eq] at hr
  have hmentioned := (endures_named cell root pos name).mention cell n db h
  cases hmention : onStorageScope cell (StorageScope.onSymbols (mention n cell)) db with
  | error _ db₁ =>
    rw [after_error hmention] at hmentioned
    cases (bind_error hmention).symm.trans hr
    exact hmentioned
  | ok found db₁ =>
    rw [after_ok hmention] at hmentioned
    have hr := (bind_ok hmention).symm.trans hr
    cases found with
    | none =>
      cases hr
      exact hmentioned
    | some i =>
      have hr : (updateCell cell (fun c => { c with name := some i }) >>= fun _ => pure i) db₁ =
        .error e db' := hr
      have hnot (c : Record Cell) :
          db₁.registry.stored? cell ≠ some { kind := .cell, record := c } := by
        intro hc
        obtain ⟨r, hnoted, _⟩ := updateCell_stores hmentioned.anchored.sound hc
          fun c => { c with name := some i }
        cases (bind_ok hnoted).symm.trans hr
      have hwrite : Named cell root pos name (after (updateCell cell
          (fun c => { c with name := some i })) db₁) := by
        unfold updateCell
        rw [after_bind_of_still fun a t => by cases a <;> rfl]
        exact hmentioned.write (fun _ => rfl) fun _ x hx => absurd hx (hnot x)
      cases hupdate : updateCell cell (fun c => { c with name := some i }) db₁ with
      | ok _ _ => cases (bind_ok hupdate).symm.trans hr
      | error _ _ =>
        cases (bind_error hupdate).symm.trans hr
        rwa [after_error hupdate] at hwrite

/-! ## After the cell was named -/

/-- Records that are live stay live, and belong where they belonged. -/
def Resides (db db' : Database) : Prop :=
  db.Anchored → db'.Anchored ∧
    ∀ id, db.registry.Live id → db'.registry.Live id ∧ db'.scopeRoot id = db.scopeRoot id

instance : IsPreorder Database Resides where
  refl _ h := ⟨h, fun _ hl => ⟨hl, rfl⟩⟩
  trans _ _ _ h h' ha := by
    obtain ⟨ha', hr⟩ := h ha
    obtain ⟨ha'', hr'⟩ := h' ha'
    refine ⟨ha'', fun id hl => ?_⟩
    obtain ⟨hl', hroot⟩ := hr id hl
    obtain ⟨hl'', hroot'⟩ := hr' id hl'
    exact ⟨hl'', hroot'.trans hroot⟩

theorem resides_of_alike (h : Alike db db') : Resides db db' := by
  intro ha
  have hp := h ha.sound
  refine ⟨ha.of_places hp, fun id hl => ⟨hp.live hl, scopeRoot_congr hp.config (fun x => ?_)
    (fun x => ?_) id⟩⟩
  · rw [isScopeOwner, hp.owners, isScopeOwner]
  · have hm := congrArg (Option.map Prod.fst) (hp.marks x)
    rw [Option.map_map, Option.map_map] at hm
    rw [ownerId?_eq ha.sound, ownerId?_eq hp.evolves.sound, hp.hierarchy]
    have hbind (o : Option Entry) : (o.bind fun e => db.hierarchy.idAt? e.owner) =
        (o.map (Prod.fst ∘ Entry.marks)).bind db.hierarchy.idAt? := by
      cases o <;> rfl
    rw [hbind, hm, ← hbind]

theorem resides_create (k : RecordKind) (t : ObjectType) (owner : ObjectId) :
    Keeps Resides (create k t owner) := by
  intro db ha
  have hlasts := lasting_create k t owner db ha.sound
  refine ⟨anchored_of_follows (follows_create k t owner) ha, fun id hl =>
    ⟨hlasts.2 id hl, ?_⟩⟩
  cases hr : create k t owner db with
  | error e db' =>
    rcases create_cases ha.sound k t owner with ⟨e', he'⟩ | ⟨_, _, _, _, _, _, _, _, _, _, _, he'⟩
    · cases he'.symm.trans hr
      rw [after_error hr]
    · cases he'.symm.trans hr
  | ok new db' =>
    obtain ⟨hh, _⟩ := hangs_create ha hr
    rw [after_ok hr, scopeRoot, scopeRoot, hh.config,
      hh.climb_other ha _ (ha.sound.ne_of_live hl hh.fresh)]

theorem resides_attachCell (parent child : ObjectId) : Keeps Resides (attachCell parent child) :=
  (Session.mirrors_attachCell parent child).keeps_of_onDb
    ((Session.Making.of_alike resides_of_alike resides_create).attachCell parent child)

theorem resides_setCellName (cell : ObjectId) (name : String) :
    Keeps Resides (setCellName cell name) :=
  fun db => (Session.Naming.of_alike resides_of_alike).setCellName cell name db []

theorem resides_setActive (a : ActiveScope) (id : Option ObjectId) :
    Keeps Resides (modify fun db => { db with hierarchy := db.hierarchy.setActive a id } :
      Edit Unit) := by
  refine Keeps.modify fun db ha => ⟨ha.setActive a id, fun x hl => ⟨hl, ?_⟩⟩
  refine scopeRoot_congr ?_ (fun _ => ?_) (fun _ => ?_) x <;> cases a <;> rfl

/-- The cell is live and belongs to a scope, in which the name is what it notes. -/
def NamedAt (cell root : ObjectId) (name : String) (db : Database) : Prop :=
  db.registry.Live cell ∧ db.scopeRoot cell = .ok (some root) ∧
    ∃ pos, Named cell root pos name db

/-- A cell that is named has its name, and still has it after what leaves the scopes of records
and the name as they are. -/
theorem namedAt_after (h : db.Anchored) (hr : setCellName cell name db = .ok symbol db')
    {x : Edit Unit} (hx : Keeps Resides x)
    (hkeep : ∀ root pos, Yields (Named cell root pos name) (fun _ => True) x) :
    ∃ root, NamedAt cell root name (after x db') := by
  obtain ⟨root, pos, hroot, hnamed⟩ := named_of_setCellName h hr
  obtain ⟨_, _, _, _, _, _, hlive, _⟩ := of_setCellName h hr
  have hres := resides_setCellName cell name db
  rw [after_ok hr] at hres
  obtain ⟨_, hres⟩ := trans_of Resides hres (hx db') h
  obtain ⟨hl, hroot'⟩ := hres cell hlive
  exact ⟨root, hl, hroot'.trans hroot, pos, (hkeep root pos).keeps hnamed⟩

theorem ok_of_toOption {ε α : Type} {x : Except ε α} {a : α} (h : x.toOption = some a) :
    x = .ok a := by
  cases x with
  | error e => contradiction
  | ok b => exact congrArg Except.ok (Option.some.inj h)

theorem of_naming {make : Edit ObjectId} {n : String}
    (h : (answer (naming make n) db).toOption = some (cell, name)) :
    n = name ∧ ∃ db₁ symbol db₂, make db = .ok cell db₁ ∧
      setCellName cell name db₁ = .ok symbol db₂ := by
  have hok := eq_ok_of_answer (ok_of_toOption h)
  obtain ⟨id, db₁, hmake, hrest⟩ := ok_of_bind hok
  obtain ⟨_, db₂, hname, hanswer⟩ := ok_of_bind hrest
  obtain ⟨symbol, hname⟩ := ok_of_discard hname
  cases hanswer
  exact ⟨rfl, db₁, symbol, _, hmake, hname⟩

/-- A cell that is made and named is named once it is listed among the child cells of its
parent. -/
theorem namedAt_listed {make : Edit ObjectId} (h : db.Anchored)
    (hmake : Keeps (SparesFrom fun _ => True) make) {n : String}
    (hn : (answer (naming make n) db).toOption = some (cell, name)) (parent : ObjectId) :
    ∃ root, NamedAt cell root name (after (making make parent n) db) := by
  obtain ⟨rfl, db₁, symbol, db₂, hmade, hname⟩ := of_naming hn
  have ha : db₁.Anchored := by
    have ha := (hmake db h).1
    rwa [after_ok hmade] at ha
  refine after_bind_ok (P := fun d => ∃ root, NamedAt cell root n d) hmade ?_
  refine after_bind_ok (P := fun d => ∃ root, NamedAt cell root n d) (discard_ok hname) ?_
  rw [after_bind_of_still fun _ _ => rfl]
  refine namedAt_after ha hname (resides_attachCell parent cell) fun root pos => ?_
  exact (endures_named cell root pos n).attachCell
    ⟨fun _ _ _ _ => rfl, fun _ _ _ _ => ⟨fun _ _ => rfl, fun _ _ => rfl⟩⟩ cell

/-- The last two steps of putting a new scope in the place of the active one. -/
theorem ok_of_replaceActive {a : ActiveScope} {prepare : ObjectId → Edit Unit} (ha : db.Anchored)
    (h : replaceActive a prepare db = .ok id db') :
    ∃ db₁ db₂, db₁.Anchored ∧ prepare id db₁ = .ok ⟨⟩ db₂ ∧
      db' = { db₂ with hierarchy := db₂.hierarchy.setActive a (some id) } := by
  have hopen (db₀ : Database) (ha₀ : db₀.Anchored)
      (h₀ : (openScope a >>= fun id => do
        prepare id
        modify fun db => { db with hierarchy := db.hierarchy.setActive a (some id) }
        return id) db₀ = .ok id db') :
      ∃ db₁ db₂, db₁.Anchored ∧ prepare id db₁ = .ok ⟨⟩ db₂ ∧
        db' = { db₂ with hierarchy := db₂.hierarchy.setActive a (some id) } := by
    obtain ⟨id', db₁, hnew, hrest⟩ := ok_of_bind h₀
    obtain ⟨_, db₂, hprepare, hrest⟩ := ok_of_bind hrest
    obtain ⟨_, db₃, hset, hanswer⟩ := ok_of_bind hrest
    cases hset
    cases hanswer
    have ha₁ := (sparesFrom_openScope (D := fun _ => True) a db₀ ha₀).1
    rw [after_ok hnew] at ha₁
    exact ⟨db₁, db₂, ha₁, hprepare, rfl⟩
  obtain ⟨_, _, hget, h⟩ := ok_of_bind h
  cases hget
  cases hold : db.hierarchy.active a with
  | none =>
    rw [hold] at h
    exact hopen db ha h
  | some old =>
    rw [hold] at h
    obtain ⟨_, db₀, hclose, h⟩ := ok_of_bind h
    obtain ⟨_, hclose⟩ := ok_of_discard hclose
    have ha₀ := ha.destroyScope (ε := Failure DbError) old
    rw [after_ok hclose] at ha₀
    exact hopen db₀ ha₀ h

theorem named_of_named? (ha : db.Anchored) {c : Command} (h : c.named? db = some (cell, name)) :
    ∃ root, NamedAt cell root name (after c.perform db) := by
  cases c with
  | setCellName id n =>
    obtain ⟨rfl, db₁, symbol, db₂, hmade, hname⟩ := of_naming h
    cases hmade
    have hnamed := namedAt_after ha hname (x := pure ⟨⟩) (Keeps.pure _) fun _ _ => Yields.pure trivial
    show ∃ root, NamedAt cell root n (after (discard (setCellName cell n)) db)
    rw [after_discard, after_ok hname]
    exact hnamed
  | createCell parent n =>
    show ∃ root, NamedAt cell root name (after (discard (createCell parent n)) db)
    rw [after_discard]
    exact namedAt_listed ha (sparesFrom_create .cell .cell parent) h parent
  | createHierCell parent n =>
    show ∃ root, NamedAt cell root name (after (discard (createHierCell parent n)) db)
    rw [after_discard]
    exact namedAt_listed ha (sparesFrom_openNested parent) h parent
  | initTopCell n =>
    obtain ⟨id, hid, hp⟩ := Option.map_eq_some_iff.1 h
    cases hp
    have hr := eq_ok_of_answer (ok_of_toOption hid)
    obtain ⟨db₁, db₂, ha', hprepare, hdb⟩ := ok_of_replaceActive ha hr
    obtain ⟨_, db₃, hrole, hname⟩ := ok_of_bind hprepare
    obtain ⟨symbol, hname⟩ := ok_of_discard hname
    have ha₃ : db₃.Anchored := by
      have hres := (Session.Naming.of_alike resides_of_alike).updateCell cell
        (fun c => { c with role := .top }) (fun _ => rfl) db₁ []
      rw [after_ok hrole] at hres
      exact (hres ha').1
    show ∃ root, NamedAt cell root name (after (discard (initTopCell name)) db)
    rw [after_discard, hdb]
    exact namedAt_after ha₃ hname (resides_setActive .topCell (some cell)) fun root pos =>
      (endures_named cell root pos name).of_sparesFrom (sparesFrom_setActive _ _)
  | _ => contradiction

/-- All commands but the naming of the cell make no writes but those that leave its name. -/
theorem permits_named {c : Command} (hheaders : c.LeavesHeaders) (hnames : c.LeavesNames cell)
    (hc : ∀ n, c ≠ .setCellName cell n) :
    Permits (fun _ => True) (fun k id f => id = cell → ∀ b, k.name? (f b) = k.name? b)
      (Named cell root pos name) c := by
  cases c with
  | setCellName id n => exact fun _ hid => absurd (congrArg (Command.setCellName · n) hid) (hc n)
  | createCell parent n =>
    exact ⟨fun _ _ _ _ => rfl, fun _ _ _ _ => ⟨fun _ _ => rfl, fun _ _ => rfl⟩⟩
  | createHierCell parent n =>
    exact ⟨fun _ _ _ _ => rfl, fun _ _ _ _ => ⟨fun _ _ => rfl, fun _ _ => rfl⟩⟩
  | appendId array owner value => exact fun _ _ _ _ => rfl
  | write k id f =>
    intro db h
    show Named cell root pos name (after (discard (update k id f)) db)
    rw [after_discard]
    exact h.write hheaders fun hid x _ => hnames hid x
  | symbols id x =>
    intro db h
    show Named cell root pos name (after (discard (onStorageScope id _)) db)
    rw [after_discard]
    exact h.onSymbols hnames id
  | restoreHierarchy l => exact hheaders.elim
  | writeHeader id f => exact hheaders.elim
  | editHeader id e => exact hheaders.elim
  | _ => trivial

/-- A command leaves the name of the cell where it does not name the cell by itself. -/
theorem Named.perform_of_error (h : Named cell root pos name db) {c : Command}
    (hheaders : c.LeavesHeaders) (hnames : c.LeavesNames cell)
    (hc : ∀ n, c = .setCellName cell n → ∃ e db', setCellName cell n db = .error e db') :
    Named cell root pos name (after c.perform db) := by
  by_cases hset : ∃ n, c = .setCellName cell n
  · obtain ⟨n, rfl⟩ := hset
    obtain ⟨e, db', hr⟩ := hc n rfl
    show Named cell root pos name (after (discard (setCellName cell n)) db)
    rw [after_discard, after_error hr]
    exact h.of_setCellName_error hr
  · exact (endures_named cell root pos name).perform
      (permits_named hheaders hnames fun n hn => hset ⟨n, hn⟩) h

/-- A command that does not name the cell leaves its name. -/
theorem Named.perform (h : Named cell root pos name db) {c : Command} (hheaders : c.LeavesHeaders)
    (hnames : c.LeavesNames cell) (hc : (c.named? db).map (·.1) ≠ some cell) :
    Named cell root pos name (after c.perform db) := by
  refine h.perform_of_error hheaders hnames fun n hn => ?_
  subst hn
  cases hr : setCellName cell n db with
  | error e db' => exact ⟨e, db', rfl⟩
  | ok i db' =>
    refine absurd ?_ hc
    have hnaming : naming (pure cell) n db = .ok (cell, n) db' := bind_ok (discard_ok hr)
    simp only [Command.named?, answer, hnaming, Except.toOption, Option.map_some]

/-- A table that has the name and no more names than words has it at a word. -/
theorem Named.lt_of_size_le (h : Named cell root pos name db) (hs : s ∈ db.scopes)
    (howner : s.owner = root) (hsize : s.symbols.size ≤ UInt32.size) : pos < UInt32.size := by
  refine Nat.lt_of_lt_of_le ?_ hsize
  rw [← SymbolTable.length_names]
  exact (List.getElem?_eq_some_iff.1 (h.means s hs howner)).1

theorem Named.name? (h : Named cell root pos name db) (hpos : pos < UInt32.size)
    (hs : s ∈ db.scopes) (howner : s.owner = root) : s.symbols.name? ⟨pos⟩ = some name := by
  rw [SymbolTable.name?_eq_names, SymbolIndex.toNat_mk hpos, h.means s hs howner]

/-- The scope that a record belongs to is open. -/
theorem exists_storageScope (h : db.Anchored) (hroot : db.scopeRoot id = .ok (some root)) :
    ∃ s ∈ db.scopes, s.owner = root ∧ db.storageScope id = .ok (some s) := by
  obtain ⟨s, hs, rfl⟩ := h.exists_scope (isScopeOwner_of_climb (scopeRoot_eq_ok_iff.1 hroot))
  refine ⟨s, hs, rfl, ?_⟩
  simp only [storageScope, hroot, Option.bind_some, scope?_of_mem h.forest hs]

/-- What the cell notes is its name where it belongs to the scope in which it was named. -/
theorem Named.cellName (h : Named cell root pos name db) (hpos : pos < UInt32.size)
    (hl : db.registry.Live cell) (hroot : db.scopeRoot cell = .ok (some root)) :
    db.cellName cell = .ok (some name) := by
  obtain ⟨e, he⟩ := Option.isSome_iff_exists.1 (isSome_stored?_iff.2 hl)
  obtain ⟨c, rfl, hc⟩ := Entry.cell_of_name? (h.noted e he)
  have hresolve : db.resolve .cell cell = .ok (some c) :=
    (resolve_eq_some_iff_stored? h.anchored.sound).2 he
  obtain ⟨s, hs, howner, hscope⟩ := exists_storageScope h.anchored hroot
  have hname := h.name? hpos hs howner
  simp only [Database.cellName, hresolve, hscope, hc, hname, bind, Except.bind, pure, Except.pure]

end Database

/-- Let a cell be named, in a run in which no hierarchy is restored and no header written by hand,
in a scope that has no more names then than there are words of 32 bits.  It has the name then, in
the scope it belongs to.  Let any run follow in which the cell is not named again, and no name is
taken from a symbol or written to the cell by hand.  As long as the cell is live and belongs to
that scope it has the name.  If the cell owns a scope it does so as long as it is live, whoever its
owner is. -/
theorem cellName_lasts {c : StoreConfig} {start : Database} (h : Database.new c = .ok start)
    {prior later : List Command} {naming : Command} {cell : ObjectId} {name : String}
    (hprior : ∀ c ∈ prior, c.LeavesHeaders) (hlater : ∀ c ∈ later, c.LeavesHeaders)
    (hnames : ∀ c ∈ later, c.LeavesNames cell)
    (hnamed : naming.named? (Database.run prior start) = some (cell, name))
    (hroom : ∀ s, (after naming.perform (Database.run prior start)).storageScope cell =
      .ok (some s) → s.symbols.size ≤ UInt32.size)
    (hlast : (after naming.perform (Database.run prior start)).Throughout
      (fun db c => (c.named? db).map (·.1) ≠ some cell) later) :
    let db := after naming.perform (Database.run prior start)
    let db' := Database.run later db
    ∃ root, db.scopeRoot cell = .ok (some root) ∧ db.cellName cell = .ok (some name) ∧
      (db'.isLive cell = true → db'.scopeRoot cell = .ok (some root) →
        db'.cellName cell = .ok (some name)) ∧
      (db'.isLive cell = true → db.registry.isScopeOwner cell = true →
        db'.cellName cell = .ok (some name)) := by
  intro db db'
  have ha := Database.anchored_run h hprior
  obtain ⟨root, hl, hroot, pos, hn⟩ := Database.named_of_named? ha hnamed
  obtain ⟨s, hs, howner, hscope⟩ := Database.exists_storageScope hn.anchored hroot
  have hpos : pos < UInt32.size := hn.lt_of_size_le hs howner (hroom s hscope)
  have hn' : Database.Named cell root pos name db' :=
    Database.run_of_step (fun c hc _ hp hq => hq.perform (hlater c hc) (hnames c hc) hp) hlast hn
  refine ⟨root, hroot, hn.cellName hpos hl hroot, fun hl' hroot' => ?_, fun hl' hown => ?_⟩
  · exact hn'.cellName hpos ((Database.isLive_iff hn'.anchored.sound cell).1 hl') hroot'
  · have hl' := (Database.isLive_iff hn'.anchored.sound cell).1 hl'
    cases (Database.scopeRoot_of_owner hown).symm.trans hroot
    exact hn'.cellName hpos hl' (Database.scopeRoot_of_owner (hn'.owns rfl hl'))

/-- A cell of the top cell comes to be owned by a nested cell, and then by the top cell again,
while cells are named after it and another cell is renamed. -/
theorem cellName_lasts_moved_and_back :
    let top := Session.firstPage 1 .cell 0 0
    let cell := Session.firstPage 1 .cell 0 1
    let other := Session.firstPage 1 .cell 0 2
    let nested := Session.firstPage 1 .cell 0 3
    let prior : List Command := [.initTopCell "top"]
    let naming : Command := .createCell top "inverter"
    let later : List Command := [.createCell top "buffer", .createHierCell top "adder",
      .setOwner cell nested, .setCellName other "latch", .setOwner cell top]
    let db := after naming.perform (Database.run prior (Database.empty {}))
    let db' := Database.run later db
    (∀ c ∈ prior, c.LeavesHeaders) ∧ (∀ c ∈ later, c.LeavesHeaders) ∧
      (∀ c ∈ later, c.LeavesNames cell) ∧
      naming.named? (Database.run prior (Database.empty {})) = some (cell, "inverter") ∧
      (∀ s, db.storageScope cell = .ok (some s) → s.symbols.size ≤ UInt32.size) ∧
      db.Throughout (fun db c => (c.named? db).map (·.1) ≠ some cell) later ∧
      db'.cellName cell = .ok (some "inverter") := by
  intro top cell other nested prior naming later db db'
  have hprior : ∀ c ∈ prior, c.LeavesHeaders := by simp [prior, Command.LeavesHeaders]
  have hlater : ∀ c ∈ later, c.LeavesHeaders := by simp [later, Command.LeavesHeaders]
  have hnames : ∀ c ∈ later, c.LeavesNames cell := by simp [later, Command.LeavesNames]
  have hnamed : naming.named? (Database.run prior (Database.empty {})) =
    some (cell, "inverter") := by decide +kernel
  have hscope : (db.storageScope cell).map (Option.map fun s => s.symbols.size) =
    .ok (some 2) := by decide +kernel
  have hroom (s : StorageScope) (hs : db.storageScope cell = .ok (some s)) :
      s.symbols.size ≤ UInt32.size := by
    rw [hs] at hscope
    have hsize : s.symbols.size = 2 := Option.some.inj (Except.ok.inj hscope)
    rw [hsize]
    decide
  have hlast : db.Throughout (fun db c => (c.named? db).map (·.1) ≠ some cell) later := by
    decide +kernel
  obtain ⟨root, hroot, _, hlasts, _⟩ :=
    cellName_lasts (c := {}) rfl hprior hlater hnames hnamed hroom hlast
  have htop : db.scopeRoot cell = .ok (some top) := by decide +kernel
  cases htop.symm.trans hroot
  exact ⟨hprior, hlater, hnames, hnamed, hroom, hlast,
    hlasts (by decide +kernel) (by decide +kernel)⟩

/-- A cell of the top cell comes to be owned by the technology library, and has the name of a
cell there. -/
theorem cellName_lost_in_other_scope :
    let top := Session.firstPage 1 .cell 0 0
    let tech := Session.firstPage 2 .tech 0 0
    let cell := Session.firstPage 1 .cell 0 1
    let prior : List Command := [.initTopCell "top", .initTechLib, .createCell tech "fill",
      .createCell tech "tap"]
    let naming : Command := .createCell top "inverter"
    let db := after naming.perform (Database.run prior (Database.empty {}))
    let db' := Database.run [.setOwner cell tech] db
    naming.named? (Database.run prior (Database.empty {})) = some (cell, "inverter") ∧
      db.cellName cell = .ok (some "inverter") ∧ db'.isLive cell = true ∧
      db'.scopeRoot cell = .ok (some tech) ∧ db'.cellName cell = .ok (some "tap") := by
  intro top tech cell prior naming db db'
  exact ⟨by decide +kernel, by decide +kernel, by decide +kernel, by decide +kernel,
    by decide +kernel⟩

end DesignStore
