/-
The users of symbols.

When a cell is named the name goes into the table of the scope the cell belongs to then, and the
cell among the users of the name.  Nothing is ever taken off a table while its scope is open.  So
a table is what the namings in its scope have made of it, one after the other (`Recorded`): the
users of a symbol are all cells that were given the name there, also those that were renamed or
destroyed since.

A symbol is a position cut to 32 bits.  Where a table has more names than there are words, a cell
that is given a new name goes among the users of another.
-/
import DesignStore.Proofs.CellNames
import DesignStore.Proofs.Structure

namespace DesignStore

/-- A cell is named in the scope of an owner. -/
structure Mention where
  scope : ObjectId
  name : String
  cell : ObjectId
  deriving DecidableEq, Repr

/-! ## Tables that come of naming -/

namespace SymbolTable

variable {t : SymbolTable} {l : List Mention} {name : String} {id : ObjectId} {i : SymbolIndex}

/-- The cell comes to be a user of the symbol of a name that is there, or of a new name. -/
theorem after_mention (name : String) (id : ObjectId) (t : SymbolTable) :
    (∃ i, ∃ hi : i < t.symbols.size, t.symbols[i].name = name ∧
        after (Database.mention name id) t =
          { symbols := t.symbols.modify (⟨i⟩ : SymbolIndex).val (Symbol.use id) }) ∨
      (∀ s ∈ t.symbols, s.name ≠ name) ∧
        after (Database.mention name id) t =
          { symbols := (t.symbols.push { name }).modify (⟨t.size⟩ : SymbolIndex).val
              (Symbol.use id) } := by
  -- a position that is cut is no later than it was, so it is in the table
  have hcut (n : Nat) : ((⟨n⟩ : SymbolIndex).val : Nat) ≤ n := UInt32.toNat_ofNat ▸ Nat.mod_le ..
  cases hf : t.symbols.findIdx? (·.name = name) with
  | some i =>
    obtain ⟨hi, hname, _⟩ := Array.findIdx?_eq_some_iff_getElem.1 hf
    refine Or.inl ⟨i, hi, of_decide_eq_true hname, ?_⟩
    have hintern : (intern name : EStateM (Failure DbError) SymbolTable _) t = .ok ⟨i⟩ t :=
      intern_of_some (by simp only [find?, hf, Option.map_some])
    have hadd := addReference_of_lt (ε := Failure DbError) (Nat.lt_of_le_of_lt (hcut i) hi) id
    simp only [after, Database.mention, bind_apply, hintern, discard_apply, hadd, pure_apply]
  | none =>
    refine Or.inr ⟨fun s hs => by simpa using Array.findIdx?_eq_none_iff.1 hf s hs, ?_⟩
    have hintern : (intern name : EStateM (Failure DbError) SymbolTable _) t =
        .ok ⟨t.size⟩ { symbols := t.symbols.push { name } } :=
      intern_of_none (by simp only [find?, hf, Option.map_none])
    have hlt : t.size < ({ symbols := t.symbols.push { name } } : SymbolTable).size := by
      simp [size]
    have hadd := addReference_of_lt (ε := Failure DbError) (Nat.lt_of_le_of_lt (hcut t.size) hlt) id
    simp only [after, Database.mention, bind_apply, hintern, discard_apply, hadd, pure_apply]

theorem modify_push_size (l : Array Symbol) (name : String) (id : ObjectId) :
    (l.push { name }).modify l.size (Symbol.use id) = l.push { name, users := [id] } := by
  refine Array.ext_getElem? fun j => ?_
  rw [Array.getElem?_modify, Array.getElem?_push, Array.getElem?_push]
  by_cases hj : j = l.size
  · simp [hj, Symbol.use]
  · simp [hj, Ne.symm hj]

/-- The table that comes of naming cells one after the other. -/
def recording (l : List Mention) : SymbolTable :=
  l.foldl (fun t m => after (Database.mention m.name m.cell) t) {}

theorem recording_concat (l : List Mention) (m : Mention) :
    recording (l ++ [m]) = after (Database.mention m.name m.cell) (recording l) := by
  rw [recording, List.foldl_append]
  rfl

/-- The cells that were given a name, in the order in which they were given it first. -/
def usersIn (l : List Mention) (name : String) : List ObjectId :=
  ((l.filter (·.name = name)).map (·.cell)).eraseDups

theorem mem_usersIn : id ∈ usersIn l name ↔ ∃ m ∈ l, m.name = name ∧ m.cell = id := by
  simp [usersIn, List.mem_eraseDups, and_assoc]

theorem usersIn_concat (l : List Mention) (m : Mention) (name : String) :
    usersIn (l ++ [m]) name =
      if m.name = name ∧ m.cell ∉ usersIn l name then usersIn l name ++ [m.cell]
      else usersIn l name := by
  have hmem : m.cell ∈ usersIn l name ↔ m.cell ∈ (l.filter (·.name = name)).map (·.cell) :=
    List.mem_eraseDups
  by_cases hname : m.name = name
  · have hlast : ((l ++ [m]).filter (·.name = name)).map (·.cell) =
        (l.filter (·.name = name)).map (·.cell) ++ [m.cell] := by simp [hname]
    rw [usersIn, hlast, eraseDups_concat, ← usersIn]
    by_cases hcell : m.cell ∈ usersIn l name
    · rw [if_pos (hmem.1 hcell), if_neg fun h => h.2 hcell]
    · rw [if_neg (mt hmem.2 hcell), if_pos ⟨hname, hcell⟩]
  · rw [if_neg fun h => hname h.1]
    simp [usersIn, hname]

theorem usersIn_concat_of_ne {m : Mention} (h : m.name ≠ name) :
    usersIn (l ++ [m]) name = usersIn l name := by
  rw [usersIn_concat, if_neg fun hm => h hm.1]

theorem usersIn_concat_first {m : Mention} (h : m.name ∉ l.map (·.name)) :
    usersIn (l ++ [m]) m.name = [m.cell] := by
  have hnone : usersIn l m.name = [] := by
    refine List.eq_nil_iff_forall_not_mem.2 fun id hid => ?_
    obtain ⟨m', hm', hname, _⟩ := mem_usersIn.1 hid
    exact h (List.mem_map.2 ⟨m', hm', hname⟩)
  simp [usersIn_concat, hnone]

/-- The symbol whose name is given comes to have the users it is to have. -/
theorem use_usersIn (l : List Mention) (m : Mention) :
    Symbol.use m.cell { name := m.name, users := usersIn l m.name } =
      { name := m.name, users := usersIn (l ++ [m]) m.name } := by
  simp only [usersIn_concat, true_and, Symbol.use]
  by_cases hcell : m.cell ∈ usersIn l m.name <;> simp [hcell]

/-- A table has each name once, in the order in which they were first given. -/
theorem names_recording (l : List Mention) :
    (recording l).columns.names = (l.map (·.name)).eraseDups := by
  induction l using List.reverseRecOn with
  | nil => rfl
  | append_singleton l m ih =>
    have hmem : m.name ∈ l.map (·.name) ↔ ∃ s ∈ (recording l).symbols, s.name = m.name := by
      rw [← List.mem_eraseDups, ← ih, columns, List.mem_map]
      simp only [Array.mem_toList_iff]
    rw [recording_concat, List.map_append, List.map_singleton, eraseDups_concat, ← ih]
    rcases after_mention m.name m.cell (recording l) with ⟨i, hi, hname, hr⟩ | ⟨hnew, hr⟩
    · rw [hr, names_modify, if_pos (hmem.2 ⟨_, Array.getElem_mem hi, hname⟩)]
    · rw [hr, if_neg fun h => (hmem.1 h).elim fun s hs => hnew s hs.1 hs.2]
      exact (names_modify { symbols := (recording l).symbols.push { name := m.name } } _ _).trans
        (congrArg Columns.names (columns_push (recording l) m.name))

theorem size_recording (l : List Mention) :
    (recording l).size = (l.map (·.name)).eraseDups.length := by
  rw [← length_names, names_recording]

theorem size_recording_le (l : List Mention) (m : Mention) :
    (recording l).size ≤ (recording (l ++ [m])).size := by
  rw [size_recording, size_recording, List.map_append, List.map_singleton, eraseDups_concat]
  split
  · exact Nat.le_refl _
  · rw [List.length_append]
    exact Nat.le_add_right ..

/-- As long as there are no more names than words, a table has with each name the cells that were
given it. -/
theorem symbols_recording (l : List Mention) (hsize : (recording l).size ≤ UInt32.size) :
    (recording l).symbols.toList =
      (l.map (·.name)).eraseDups.map fun name => { name, users := usersIn l name } := by
  induction l using List.reverseRecOn with
  | nil => rfl
  | append_singleton l m ih =>
    have hle := Nat.le_trans (size_recording_le l m) hsize
    have ih := ih hle
    have hnames : (recording l).symbols.toList.map (·.name) = (l.map (·.name)).eraseDups :=
      names_recording l
    have hnodup : (l.map (·.name)).eraseDups.Nodup := nodup_eraseDups _
    have hmem : m.name ∈ l.map (·.name) ↔ m.name ∈ (l.map (·.name)).eraseDups :=
      List.mem_eraseDups.symm
    have hgrown : m.name ∉ l.map (·.name) → (recording l).size < UInt32.size := by
      intro hnot
      rw [size_recording, List.map_append, List.map_singleton, eraseDups_concat, if_neg hnot,
        List.length_append, ← size_recording] at hsize
      exact Nat.lt_of_succ_le hsize
    rw [recording_concat, List.map_append, List.map_singleton, eraseDups_concat]
    generalize (l.map (·.name)).eraseDups = names at ih hnames hnodup hmem
    rcases after_mention m.name m.cell (recording l) with ⟨i, hi, hname, hr⟩ | ⟨hnew, hr⟩
    · -- only the symbol that is there changes, and no other has the name
      have hat : names[i]? = some m.name := by
        rw [← hnames, List.getElem?_map, Array.getElem?_toList, Array.getElem?_eq_getElem hi,
          Option.map_some, hname]
      rw [hr, if_pos (hmem.2 (List.mem_of_getElem? hat)), Array.toList_modify, ih,
        SymbolIndex.toNat_mk (Nat.lt_of_lt_of_le hi hle)]
      refine List.ext_getElem? fun j => ?_
      rw [List.getElem?_modify, List.getElem?_map, List.getElem?_map]
      cases hj : names[j]? with
      | none => simp
      | some name =>
        by_cases hij : i = j
        · subst hij
          cases hat.symm.trans hj
          simpa using use_usersIn l m
        · have hne : m.name ≠ name := by
            rintro rfl
            have hlt := (List.getElem?_eq_some_iff.1 hat).1
            exact hij ((List.getElem?_inj hlt hnodup).1 (hat.trans hj.symm))
          simp [usersIn_concat_of_ne hne, hij]
    · have hnot : m.name ∉ l.map (·.name) := by
        rw [hmem, ← hnames]
        intro h
        obtain ⟨s, hs, hname⟩ := List.mem_map.1 h
        exact hnew s (Array.mem_toList_iff.1 hs) hname
      have hold (name : String) (hname : name ∈ names) :
          usersIn l name = usersIn (l ++ [m]) name :=
        (usersIn_concat_of_ne fun e => hnot (hmem.2 (e ▸ hname))).symm
      have hlast := modify_push_size (recording l).symbols m.name m.cell
      rw [hr, if_neg hnot, SymbolIndex.toNat_mk (hgrown hnot), size, hlast, Array.toList_push, ih,
        List.map_append, List.map_singleton, usersIn_concat_first hnot]
      exact congrArg (· ++ _) (List.map_congr_left fun name hname => by rw [hold name hname])

theorem name?_recording (l : List Mention) (i : SymbolIndex) :
    (recording l).name? i = (l.map (·.name)).eraseDups[(i.val : Nat)]? := by
  rw [name?_eq_names, names_recording]

theorem users_recording (hsize : (recording l).size ≤ UInt32.size)
    (h : (recording l).name? i = some name) : (recording l).users i = usersIn l name := by
  rw [name?_recording] at h
  rw [users, ← Array.getElem?_toList, symbols_recording l hsize, List.getElem?_map, h]
  rfl

end SymbolTable

/-! ## Naming in a run -/

namespace Database

open Registry

variable {db db' : Database} {log : List Mention} {cell root : ObjectId} {name : String}
  {symbol : SymbolIndex}

/-- What is noted when a cell is named: its name, in the scope it belongs to. -/
def mentioned? (db : Database) (cell : ObjectId) (name : String) : Option Mention :=
  match db.scopeRoot cell with
  | .ok (some scope) => some { scope, name, cell }
  | _ => none

end Database

namespace Command

/-- What is noted when a command is carried out. -/
def mention? (c : Command) (db : Database) : Option Mention :=
  match c.naming? with
  | none => none
  | some (make, name) =>
    match make db with
    | .ok cell db' => db'.mentioned? cell name
    | .error _ _ => none

/-- The commands that put no symbols in the table of a scope by hand. -/
def LeavesSymbols : Command → Prop
  | .symbols _ _ => False
  | _ => True

end Command

namespace Database

open Registry

variable {db db' : Database} {log : List Mention} {cell root : ObjectId} {name : String}
  {symbol : SymbolIndex}

/-- All that is noted in a run. -/
def mentions : Database → List Command → List Mention
  | _, [] => []
  | db, c :: cmds => (c.mention? db).toList ++ mentions (after c.perform db) cmds

/-- The table of each open scope is what the namings in it have made of it. -/
structure Recorded (log : List Mention) (db : Database) : Prop where
  anchored : db.Anchored
  spent : ∀ m ∈ log, db.registry.Spent m.scope
  table : ∀ s ∈ db.scopes, s.symbols = SymbolTable.recording (log.filter (·.scope = s.owner))

/-- Writing to records leaves the tables. -/
theorem Recorded.write {ε : Type} {k : RecordKind} {f : Record k.Body → Record k.Body}
    (hheader : ∀ x, (f x).header = x.header) (id : ObjectId) (h : Recorded log db) :
    Recorded log (after (update k id f : EStateM (Failure ε) Database _) db) := by
  have ha := anchored_of_follows (follows_write (ε := ε) hheader id) h.anchored
  obtain ⟨r, hr, ht⟩ := after_update (ε := ε) h.anchored.sound k id f
  rw [hr] at ha ⊢
  exact ⟨ha, fun m hm => (h.spent m hm).mono ht.evolves, h.table⟩

/-- In a new scope nothing was named before. -/
theorem lasts_recorded (log : List Mention) :
    Lasts (fun _ => True) (fun _ _ _ => True) (Recorded log) where
  anchored := Recorded.anchored
  spares := by
    intro db db' h ha' hs
    refine ⟨ha', fun m hm => (h.spent m hm).mono hs.evolves, fun s hmem => ?_⟩
    by_cases hspent : db.registry.Spent s.owner
    · obtain ⟨t, ht, hto, hts⟩ := hs.symbols s hmem hspent
      rw [← hts, h.table t ht, hto]
    · have hnone : log.filter (·.scope = s.owner) = [] := by
        refine List.filter_eq_nil_iff.2 fun m hm => ?_
        rw [decide_eq_true_eq]
        exact fun e => hspent (e ▸ h.spent m hm)
      rw [hs.blank s hmem hspent, hnone]
      rfl
  write := fun {_ id f} _ _ h => h.write (f := fun r => { r with body := f r.body }) (fun _ => rfl) id
  new := fun _ _ _ => trivial

theorem Recorded.mention (h : Recorded log db) (name : String) (cell : ObjectId) :
    Recorded (log ++ (db.mentioned? cell name).toList)
      (after (onStorageScope cell (StorageScope.onSymbols (Database.mention name cell))) db) := by
  have ha := h.anchored.of_places
    (alike_onStorageScope cell (onTables_onSymbols (Database.mention name cell)) db h.anchored.sound)
  have hstill (hn : db.mentioned? cell name = none)
      (hr : after (onStorageScope cell (StorageScope.onSymbols (Database.mention name cell))) db =
        db) : Recorded (log ++ (db.mentioned? cell name).toList)
          (after (onStorageScope cell (StorageScope.onSymbols (Database.mention name cell))) db) := by
    rwa [hn, hr, Option.toList_none, List.append_nil]
  cases hroot : db.scopeRoot cell with
  | error f =>
    exact hstill (by simp only [mentioned?, hroot]) (by simp only [after, onStorageScope, hroot])
  | ok root =>
    cases root with
    | none =>
      exact hstill (by simp only [mentioned?, hroot]) (by simp only [after, onStorageScope, hroot])
    | some root =>
      have hr : after (onStorageScope cell (StorageScope.onSymbols (Database.mention name cell))) db =
          { db with scopes := db.scopes.map fun s =>
              if s.owner = root then (after (StorageScope.onSymbols (Database.mention name cell)) s)
              else s } := by
        rw [← after_onFirst_eq_map StorageScope.owner h.anchored.forest.owners,
          ← after_onScopeWhere]
        simp only [after, onStorageScope, hroot]
      have hm : db.mentioned? cell name = some { scope := root, name, cell } := by
        simp only [mentioned?, hroot]
      rw [hr] at ha ⊢
      rw [hm, Option.toList_some]
      refine ⟨ha, fun m hmem => ?_, ?_⟩
      · rcases List.mem_append.1 hmem with hmem | hmem
        · exact h.spent m hmem
        · obtain ⟨s, hs, rfl⟩ := h.anchored.exists_scope
            (isScopeOwner_of_climb (scopeRoot_eq_ok_iff.1 hroot))
          rw [List.mem_singleton.1 hmem]
          exact h.anchored.spent s hs
      · refine List.forall_mem_map.2 fun s hs => ?_
        by_cases howner : s.owner = root
        · have hsame : (after (StorageScope.onSymbols (Database.mention name cell)) s).owner =
              s.owner := by rw [after_onSymbols]
          rw [if_pos howner, hsame, after_onSymbols, h.table s hs, List.filter_append,
            List.filter_singleton, howner]
          simp [SymbolTable.recording_concat]
        · rw [if_neg howner, h.table s hs, List.filter_append]
          simp [Ne.symm howner]

theorem Recorded.setCellName (h : Recorded log db) (cell : ObjectId) (name : String) :
    Recorded (log ++ (db.mentioned? cell name).toList) (after (setCellName cell name) db) := by
  have hm := h.mention name cell
  have hrest := lasts_recorded (log ++ (db.mentioned? cell name).toList)
  rw [setCellName_eq]
  cases hr : onStorageScope cell (StorageScope.onSymbols (Database.mention name cell)) db with
  | error e db₁ =>
    rw [after_error hr] at hm
    exact after_bind_error hr hm
  | ok found db₁ =>
    rw [after_ok hr] at hm
    refine after_bind_ok hr (Yields.keeps (N := fun _ => True) ?_ hm)
    exact (yields_found cell found).bind fun symbol _ => (hrest.updateCell trivial).bind fun _ _ =>
      Yields.pure trivial

/-! ## Commands that name a cell -/

theorem lasts_anchored : Lasts (fun _ => True) (fun _ _ _ => True) Anchored where
  anchored := id
  spares := fun _ ha' _ => ha'
  write := fun {_ id f} _ _ h => anchored_of_follows
    (follows_write (f := fun r => { r with body := f r.body }) (fun _ => rfl) id) h
  new := fun _ _ _ => trivial

/-- How a command goes that names the cell that `make` answers: all but the naming itself is made
of steps that name nothing. -/
inductive NamingSteps (c : Command) (make : Edit ObjectId) (name : String) (db : Database) : Prop
  | unmade {e : Failure DbError} {db' : Database} (made : make db = .error e db')
      (steps : ∀ {Q : Database → Prop}, Lasts (fun _ => True) (fun _ _ _ => True) Q → Q db →
        Q (after c.perform db))
  | named {cell : ObjectId} {db' db₁ : Database} (made : make db = .ok cell db')
      (scope : db₁.scopeRoot cell = db'.scopeRoot cell)
      (before : ∀ {Q : Database → Prop}, Lasts (fun _ => True) (fun _ _ _ => True) Q → Q db → Q db₁)
      (later : ∀ {W : Writes} {Q : Database → Prop}, Lasts (fun _ => True) W Q →
        (∀ parent, Attachable W Q parent) → Q (after (setCellName cell name) db₁) →
        Q (after c.perform db))

theorem after_discard_bind {α β : Type} {Q : Database → Prop} {N : β → Prop} {x : Edit α}
    {y : Edit β} (hx : Q (after x db)) (hy : Yields Q N y) :
    Q (after (do discard x; y) db) := by
  rw [← after_discard] at hx
  cases hr : (discard x : Edit Unit) db with
  | error e db₁ =>
    rw [after_error hr] at hx
    exact after_bind_error hr hx
  | ok u db₁ =>
    rw [after_ok hr] at hx
    exact after_bind_ok hr (hy.keeps hx)

theorem namingSteps_making {c : Command} {make : Edit ObjectId} {parent : ObjectId}
    (hc : ∀ db, after c.perform db = after (making make parent name) db)
    (hmake : Keeps (SparesFrom fun _ => True) make) : NamingSteps c make name db := by
  cases hr : make db with
  | error e db' =>
    refine .unmade hr fun {Q} hQ hdb => ?_
    have hmade := (hQ.of_sparesFrom hmake).keeps hdb
    rw [after_error hr] at hmade
    rw [hc]
    exact after_bind_error hr hmade
  | ok cell db' =>
    refine .named hr rfl (fun {Q} hQ hdb => ?_) fun {W Q} hQ hattach hnamed => ?_
    · have hmade := (hQ.of_sparesFrom hmake).keeps hdb
      rwa [after_ok hr] at hmade
    · rw [hc]
      exact after_bind_ok hr (after_discard_bind hnamed
        ((hQ.attachCell (hattach parent) cell).bind fun _ _ =>
          Yields.pure (N := fun _ => True) trivial))

/-- The new top cell owns the scope in which it is named. -/
theorem namingSteps_openActive (h : db.Anchored) {c : Command} {db₀ : Database}
    (hbefore : ∀ {Q : Database → Prop}, Lasts (fun _ => True) (fun _ _ _ => True) Q → Q db₀ → Q db)
    (hmake : replaceActive .topCell (fun _ => pure ()) db₀ =
      openActive .topCell (fun _ => pure ()) db)
    (hc : after c.perform db₀ = after (openActive .topCell fun id => do
      updateCell id fun c => { c with role := .top }
      discard <| setCellName id name) db) :
    NamingSteps c (replaceActive .topCell fun _ => pure ()) name db₀ := by
  have hopened {Q : Database → Prop} (hQ : Lasts (fun _ => True) (fun _ _ _ => True) Q)
      (hdb : Q db₀) : Q (after (openScope .topCell) db) :=
    (hQ.of_sparesFrom (sparesFrom_openScope .topCell)).keeps (hbefore hQ hdb)
  have herror {e : Failure DbError} {db' : Database} (hr : openScope .topCell db = .error e db') :
      NamingSteps c (replaceActive .topCell fun _ => pure ()) name db₀ := by
    refine .unmade (hmake.trans (bind_error hr)) fun hQ hdb => ?_
    have hmade := hopened hQ hdb
    rw [after_error hr] at hmade
    rw [hc]
    exact after_bind_error hr hmade
  cases opening_openScope h.toTidy .topCell with
  | refused result => exact herror result
  | undone result => exact herror result
  | stranded result => exact herror result
  | @opened s e db₁ result opened holds =>
    obtain ⟨k, r⟩ := e
    obtain ⟨_, _, rfl⟩ := holds
    have hcell : db₁.registry.stored? s.owner = some { kind := .cell, record := r } := by
      rw [opened.stored, onEntry, if_pos rfl]
      rfl
    have howner : db₁.registry.isScopeOwner s.owner = true :=
      (h.of_opened opened).isScopeOwner_of_mem (opened.scopes ▸ List.mem_cons_self)
    obtain ⟨r', hrole, hst⟩ := updateCell_stores opened.evolves.sound hcell
      fun c => { c with role := .top }
    have hactive : ({ db₁ with hierarchy := db₁.hierarchy.setActive .topCell (some s.owner) } :
        Database).scopeRoot s.owner = .ok (some s.owner) := scopeRoot_of_owner howner
    refine @NamingSteps.named _ _ _ _ _ _ { db₁ with registry := r' } (hmake.trans (bind_ok result))
      ?_ (fun {Q} hQ hdb => ?_) fun hQ _ hnamed => ?_
    · rw [scopeRoot_of_owner (by rw [isScopeOwner, hst.owners]; exact howner)]
      exact hactive.symm
    · have hmade := hopened hQ hdb
      rw [after_ok result] at hmade
      have hyields : Yields Q (fun _ => True)
          (updateCell s.owner fun c => { c with role := .top }) := hQ.updateCell trivial
      have hroled := hyields.keeps hmade
      rwa [after_ok hrole] at hroled
    · rw [hc]
      refine after_bind_ok result ?_
      rw [bind_assoc]
      exact after_bind_ok hrole (after_discard_bind hnamed
        ((hQ.of_sparesFrom (sparesFrom_setActive .topCell (some s.owner))).bind fun _ _ =>
          Yields.pure (N := fun _ => True) trivial))

theorem namingSteps (h : db.Anchored) {c : Command} {make : Edit ObjectId}
    (hn : c.naming? = some (make, name)) : NamingSteps c make name db := by
  cases c with
  | setCellName cell n =>
    cases hn
    refine .named rfl rfl (fun _ h => h) fun _ _ hnamed => ?_
    rwa [Command.perform, after_discard]
  | createCell parent n =>
    cases hn
    exact namingSteps_making (fun db => after_discard _ db) (sparesFrom_create .cell .cell parent)
  | createHierCell parent n =>
    cases hn
    exact namingSteps_making (fun db => after_discard _ db) (sparesFrom_openNested parent)
  | initTopCell n =>
    cases hn
    have hperform : after (Command.initTopCell name).perform db = after (initTopCell name) db :=
      after_discard _ db
    cases ha : db.hierarchy.active .topCell with
    | none =>
      refine namingSteps_openActive h (fun _ h => h) (replaceActive_of_none ha _) ?_
      rw [hperform, initTopCell, after, replaceActive_of_none ha]
      rfl
    | some old =>
      refine namingSteps_openActive (h.destroyScope (ε := Failure DbError) old)
        (fun hQ hdb => (hQ.of_sparesFrom (sparesFrom_destroyScope old)).keeps hdb)
        (replaceActive_of_some h.toTidy ha _) ?_
      rw [hperform, initTopCell, after, replaceActive_of_some h.toTidy ha]
      rfl
  | _ => contradiction

theorem mention?_unmade {c : Command} {make : Edit ObjectId} {e : Failure DbError}
    (hn : c.naming? = some (make, name)) (hr : make db = .error e db') : c.mention? db = none := by
  simp only [Command.mention?, hn, hr]

theorem mention?_named {c : Command} {make : Edit ObjectId} {db₁ : Database}
    (hn : c.naming? = some (make, name)) (hr : make db = .ok cell db')
    (hscope : db₁.scopeRoot cell = db'.scopeRoot cell) :
    c.mention? db = db₁.mentioned? cell name := by
  simp only [Command.mention?, hn, hr, mentioned?, hscope]

theorem Recorded.perform (h : Recorded log db) {c : Command} (hheaders : c.LeavesHeaders)
    (hsymbols : c.LeavesSymbols) :
    Recorded (log ++ (c.mention? db).toList) (after c.perform db) := by
  cases hn : c.naming? with
  | some naming =>
    cases namingSteps h.anchored hn with
    | unmade made steps =>
      rw [mention?_unmade hn made, Option.toList_none, List.append_nil]
      exact steps (lasts_recorded log) h
    | named made scope before later =>
      rw [mention?_named hn made scope]
      exact later (lasts_recorded _) (fun _ => ⟨fun _ _ => trivial, fun _ _ _ _ => ⟨trivial, trivial⟩⟩)
        ((before (lasts_recorded log) h).setCellName _ _)
  | none =>
    have hnone : c.mention? db = none := by simp only [Command.mention?, hn]
    rw [hnone, Option.toList_none, List.append_nil]
    cases c with
    | write k id f =>
      rw [Command.perform, after_discard]
      exact h.write hheaders id
    | restoreHierarchy l => exact hheaders.elim
    | writeHeader id f => exact hheaders.elim
    | editHeader id e => exact hheaders.elim
    | symbols id x => exact hsymbols.elim
    | appendId array owner value => exact (lasts_recorded log).perform hn (fun _ _ => trivial) h
    | setCellName cell name => contradiction
    | createCell parent name => contradiction
    | createHierCell parent name => contradiction
    | initTopCell name => contradiction
    | _ => exact (lasts_recorded log).perform hn trivial h

theorem Recorded.run (h : Recorded log db) {cmds : List Command}
    (hcmds : ∀ c ∈ cmds, c.LeavesHeaders ∧ c.LeavesSymbols) :
    Recorded (log ++ mentions db cmds) (run cmds db) := by
  induction cmds generalizing log db with
  | nil => rwa [mentions, List.append_nil]
  | cons c cmds ih =>
    obtain ⟨hheaders, hsymbols⟩ := hcmds c List.mem_cons_self
    have hrest := ih (h.perform hheaders hsymbols) fun c hc => hcmds c (List.mem_cons_of_mem _ hc)
    rwa [List.append_assoc] at hrest

/-! ## The name that was given last -/

theorem live_of_scopeRoot (h : db.Anchored) (hroot : db.scopeRoot cell = .ok (some root)) :
    db.registry.Live cell := by
  cases hown : db.registry.isScopeOwner cell with
  | true => exact h.live_of_isScopeOwner hown
  | false =>
    have hclimb := scopeRoot_eq_ok_iff.1 hroot
    rw [climb_succ, hown, if_neg Bool.false_ne_true, ownerId?_eq h.sound] at hclimb
    refine isSome_stored?_iff.1 (Option.isSome_iff_exists.2 ?_)
    cases he : db.registry.stored? cell with
    | none => simp [he] at hclimb
    | some e => exact ⟨e, rfl⟩

/-- The handle was given out, and not for a cell. -/
structure Other (cell : ObjectId) (db : Database) : Prop where
  anchored : db.Anchored
  spent : db.registry.Spent cell
  kind : ∀ e, db.registry.stored? cell = some e → e.kind ≠ .cell

namespace Other

theorem write {ε : Type} {k : RecordKind} {f : Record k.Body → Record k.Body} {id : ObjectId}
    (hheader : ∀ x, (f x).header = x.header) (h : Other cell db) :
    Other cell (after (update k id f : EStateM (Failure ε) Database _) db) := by
  have ha := anchored_of_follows (follows_write (ε := ε) hheader id) h.anchored
  obtain ⟨r, hr, ht⟩ := after_update (ε := ε) h.anchored.sound k id f
  rw [hr] at ha ⊢
  refine ⟨ha, h.spent.mono ht.evolves, fun e he => ?_⟩
  have hs := ht.stores fun _ _ hv =>
    Occupant.isValid_write (fun y => congrArg Header.isValid (hheader y)) hv
  by_cases hid : cell = id
  · obtain ⟨e', he', rfl⟩ := Option.map_eq_some_iff.1 (hs.self.symm.trans (hid ▸ he))
    exact h.kind e' (hid ▸ he')
  · exact h.kind e ((hs.other hid).symm.trans he)

end Other

theorem endures_other (cell : ObjectId) :
    Endures (fun _ => True) (fun _ _ _ => True) (Other cell) where
  anchored := Other.anchored
  spares := by
    intro db db' h ha' hs
    refine ⟨ha', h.spent.mono hs.evolves, fun e he => ?_⟩
    obtain ⟨e', he', hc⟩ := hs.exists_of_spent h.anchored.sound h.spent he
    have hkind : e'.kind = e.kind := congrArg Sigma.fst hc
    exact hkind ▸ h.kind e' he'
  write := fun {_ id f} _ _ h => h.write (f := fun r => { r with body := f r.body }) fun _ => rfl
  mention := by
    intro id n db h
    have ha := h.anchored.of_places
      (alike_onStorageScope id (onTables_onSymbols (Database.mention n id)) db h.anchored.sound)
    refine ⟨ha, ?_, ?_⟩ <;> rw [registry_after_onStorageScope]
    · exact h.spent
    · exact h.kind
  new := fun _ _ _ => trivial

/-- What a cell notes as its name is what it was named last, in the scope it was named in. -/
def Noted (m : Mention) (db : Database) : Prop :=
  (∃ pos, Named m.cell m.scope pos m.name db) ∨ Other m.cell db

theorem Noted.perform {m : Mention} (h : Noted m db) {c : Command} (hheaders : c.LeavesHeaders)
    (hsymbols : c.LeavesSymbols) (hnames : c.LeavesNames m.cell)
    (hc : ∀ m', c.mention? db = some m' → m'.cell ≠ m.cell) : Noted m (after c.perform db) := by
  rcases h with ⟨pos, h⟩ | h
  · refine Or.inl ⟨pos, h.perform_of_error hheaders hnames fun n hn => ?_⟩
    subst hn
    cases hr : Database.setCellName m.cell n db with
    | error e db' => exact ⟨e, db', rfl⟩
    | ok i db' =>
      obtain ⟨root, _, _, _, _, _, _, hroot, _⟩ := of_setCellName h.anchored hr
      refine absurd rfl (hc { scope := root, name := n, cell := m.cell } ?_)
      have hn : (Command.setCellName m.cell n).naming? = some (pure m.cell, n) := rfl
      rw [mention?_named hn rfl rfl, mentioned?, hroot]
  · refine Or.inr ((endures_other m.cell).perform ?_ h)
    cases c with
    | write k id f =>
      intro db h
      rw [Command.perform, after_discard]
      exact h.write hheaders
    | restoreHierarchy l => exact hheaders.elim
    | writeHeader id f => exact hheaders.elim
    | editHeader id e => exact hheaders.elim
    | symbols id x => exact hsymbols.elim
    | setCellName cell name => exact fun _ => trivial
    | appendId array owner value => exact fun _ _ => trivial
    | createCell parent name =>
      exact ⟨fun _ _ => trivial, fun _ _ _ _ => ⟨trivial, trivial⟩⟩
    | createHierCell parent name =>
      exact ⟨fun _ _ => trivial, fun _ _ _ _ => ⟨trivial, trivial⟩⟩
    | _ => trivial

/-- A command that names a cell has it note the name. -/
theorem noted_of_mention? (h : db.Anchored) {c : Command} {m : Mention}
    (hm : c.mention? db = some m) : Noted m (after c.perform db) := by
  cases hn : c.naming? with
  | none => simp [Command.mention?, hn] at hm
  | some naming =>
    cases namingSteps h hn with
    | unmade made => simp [mention?_unmade hn made] at hm
    | @named cell db' db₁ made scope before later =>
      rw [mention?_named hn made scope] at hm
      have ha : db₁.Anchored := before lasts_anchored h
      have hattach {pos : Nat} (parent : ObjectId) : Attachable
          (fun k id f => id = m.cell → ∀ b, k.name? (f b) = k.name? b)
          (Named m.cell m.scope pos m.name) parent :=
        ⟨fun _ _ _ _ => rfl, fun _ _ _ _ => ⟨fun _ _ => rfl, fun _ _ => rfl⟩⟩
      cases hroot : db₁.scopeRoot cell with
      | error f => simp [mentioned?, hroot] at hm
      | ok root =>
        cases root with
        | none => simp [mentioned?, hroot] at hm
        | some root =>
          simp only [mentioned?, hroot, Option.some.injEq] at hm
          subst hm
          have hl := live_of_scopeRoot ha hroot
          obtain ⟨e, he⟩ := Option.isSome_iff_exists.1 (isSome_stored?_iff.2 hl)
          by_cases hk : e.kind = .cell
          · obtain ⟨k, r⟩ := e
            cases hk
            obtain ⟨symbol, db₂, hname⟩ := setCellName_ok ha hroot he naming.2
            obtain ⟨root', pos, hroot', hnamed⟩ := named_of_setCellName ha hname
            cases hroot.symm.trans hroot'
            refine Or.inl ⟨pos, later (endures_named cell root pos naming.2).toLasts hattach ?_⟩
            rwa [after_ok hname]
          · have hother : Other cell db₁ := by
              refine ⟨ha, ha.sound.spent_of_live hl, fun e' he' => ?_⟩
              cases he.symm.trans he'
              exact hk
            refine Or.inr (later (endures_other cell).toLasts
              (fun _ => ⟨fun _ _ => trivial, fun _ _ _ _ => ⟨trivial, trivial⟩⟩) ?_)
            exact ((endures_other cell).setCellName (fun _ => trivial) naming.2).keeps hother

/-- What each cell notes is the last that is noted of it. -/
theorem Recorded.noted_run (h : Recorded log db)
    (hlog : ∀ m, (log.filter (·.cell = cell)).getLast? = some m → Noted m db)
    {cmds : List Command} (hcmds : ∀ c ∈ cmds, c.LeavesHeaders ∧ c.LeavesSymbols)
    (hnames : ∀ c ∈ cmds, c.LeavesNames cell) {m : Mention}
    (hm : ((log ++ mentions db cmds).filter (·.cell = cell)).getLast? = some m) :
    Noted m (Database.run cmds db) := by
  induction cmds generalizing log db with
  | nil =>
    rw [mentions, List.append_nil] at hm
    exact hlog m hm
  | cons c cmds ih =>
    obtain ⟨hheaders, hsymbols⟩ := hcmds c List.mem_cons_self
    rw [mentions, ← List.append_assoc] at hm
    refine ih (h.perform hheaders hsymbols) (fun m hm => ?_)
      (fun c hc => hcmds c (List.mem_cons_of_mem _ hc))
      (fun c hc => hnames c (List.mem_cons_of_mem _ hc)) hm
    have hcell (m : Mention) (hm : (log.filter (·.cell = cell)).getLast? = some m) :
        m.cell = cell :=
      of_decide_eq_true (List.mem_filter.1 (List.mem_of_getLast? hm)).2
    have hstep (hm : (log.filter (·.cell = cell)).getLast? = some m)
        (hc : ∀ m', c.mention? db = some m' → m'.cell ≠ cell) : Noted m (after c.perform db) := by
      have hcell := hcell m hm
      exact (hlog m hm).perform hheaders hsymbols
        (hcell ▸ hnames c List.mem_cons_self) (hcell ▸ hc)
    cases hmention : c.mention? db with
    | none =>
      rw [hmention, Option.toList_none, List.append_nil] at hm
      exact hstep hm (by simp [hmention])
    | some m' =>
      rw [hmention, Option.toList_some, List.filter_append, List.filter_singleton] at hm
      by_cases hm' : m'.cell = cell
      · have hlast : m' = m := by simpa [hm'] using hm
        exact hlast ▸ noted_of_mention? h.anchored hmention
      · refine hstep (by simpa [hm'] using hm) fun m'' h'' => ?_
        cases hmention.symm.trans h''
        exact hm'

theorem recorded_empty {c : StoreConfig} (h : Database.new c = .ok db) : Recorded [] db := by
  obtain ⟨hvalid, rfl⟩ := new_eq_ok h
  exact ⟨anchored_empty hvalid, by simp, by simp [empty]⟩

end Database

/-- In any run in which no hierarchy is restored and neither a header nor a table of symbols is
written by hand, the symbols of an open scope are the names that cells were given there, each
once, in the order in which they first were.  As long as these are no more than there are words of
32 bits, the users of a symbol are the cells that were given its name, each once and in the order
in which they were, also those that have another name now or are no more.

Let also no name be written to a cell by hand.  A cell that is live and was named last in the scope
notes a symbol there that has the name it was given, and is among its users. -/
theorem symbolUsers_run {c : StoreConfig} {start : Database} (h : Database.new c = .ok start)
    {cmds : List Command} (hcmds : ∀ c ∈ cmds, c.LeavesHeaders ∧ c.LeavesSymbols) :
    let db := Database.run cmds start
    let log := Database.mentions start cmds
    ∀ s ∈ db.scopes,
      (∀ i : SymbolIndex, s.symbols.name? i =
        ((log.filter (·.scope = s.owner)).map (·.name)).eraseDups[(i.val : Nat)]?) ∧
      (s.symbols.size ≤ UInt32.size →
        (∀ i name, s.symbols.name? i = some name →
          s.symbols.users i = SymbolTable.usersIn (log.filter (·.scope = s.owner)) name ∧
          (s.symbols.users i).Nodup ∧
          ∀ cell, cell ∈ s.symbols.users i ↔ { scope := s.owner, name, cell } ∈ log) ∧
        ∀ cell r m, (∀ c ∈ cmds, c.LeavesNames cell) → db.resolve .cell cell = .ok (some r) →
          (log.filter (·.cell = cell)).getLast? = some m → m.scope = s.owner →
            ∃ i, r.body.name = some i ∧ s.symbols.name? i = some m.name ∧
              cell ∈ s.symbols.users i) := by
  intro db log s hs
  have hrecorded : Database.Recorded log db := (Database.recorded_empty h).run hcmds
  have htable := hrecorded.table s hs
  refine ⟨fun i => by rw [htable]; exact SymbolTable.name?_recording _ i, fun hsize => ?_⟩
  have husers (i : SymbolIndex) (name : String) (hi : s.symbols.name? i = some name) :
      s.symbols.users i = SymbolTable.usersIn (log.filter (·.scope = s.owner)) name := by
    rw [htable] at hi hsize ⊢
    exact SymbolTable.users_recording hsize hi
  have hmem (i : SymbolIndex) (name : String) (hi : s.symbols.name? i = some name)
      (cell : ObjectId) :
      cell ∈ s.symbols.users i ↔ { scope := s.owner, name, cell } ∈ log := by
    rw [husers i name hi, SymbolTable.mem_usersIn]
    constructor
    · rintro ⟨m, hm, rfl, rfl⟩
      obtain ⟨hm, hscope⟩ := List.mem_filter.1 hm
      rw [← of_decide_eq_true hscope]
      exact hm
    · exact fun hm => ⟨_, List.mem_filter.2 ⟨hm, decide_eq_true rfl⟩, rfl, rfl⟩
  refine ⟨fun i name hi => ⟨husers i name hi, ?_, hmem i name hi⟩,
    fun cell r m hnames hr hm hscope => ?_⟩
  · rw [husers i name hi]
    exact nodup_eraseDups _
  · obtain ⟨hin, hcell⟩ := List.mem_filter.1 (List.mem_of_getLast? hm)
    have hcell : m.cell = cell := of_decide_eq_true hcell
    subst hcell
    have hstored := (Database.resolve_eq_some_iff_stored? hrecorded.anchored.sound).1 hr
    rcases (Database.recorded_empty h).noted_run (by simp) hcmds hnames hm with ⟨pos, hn⟩ | hother
    · have hpos := hn.lt_of_size_le hs hscope.symm hsize
      have hname := hn.name? hpos hs hscope.symm
      refine ⟨⟨pos⟩, hn.noted _ hstored, hname, (hmem _ m.name hname m.cell).2 ?_⟩
      rw [← hscope]
      exact hin
    · exact absurd rfl (hother.kind _ hstored)

/-- A cell that is renamed is a user of its new name, and stays one of the name it had. -/
theorem symbolUsers_run_renamed :
    let top := Session.firstPage 1 .cell 0 0
    let cell := Session.firstPage 1 .cell 0 1
    let cmds : List Command := [.initTopCell "top", .createCell top "inverter",
      .createCell top "buffer", .setCellName cell "latch"]
    let db := Database.run cmds (Database.empty {})
    (∀ c ∈ cmds, c.LeavesHeaders ∧ c.LeavesSymbols) ∧ (∀ c ∈ cmds, c.LeavesNames cell) ∧
      ∃ s ∈ db.scopes, s.owner = top ∧ s.symbols.name? ⟨1⟩ = some "inverter" ∧
        s.symbols.users ⟨1⟩ = [cell] ∧
        ∃ r i, db.resolve .cell cell = .ok (some r) ∧ r.body.name = some i ∧
          s.symbols.name? i = some "latch" ∧ cell ∈ s.symbols.users i := by
  intro top cell cmds db
  have hcmds : ∀ c ∈ cmds, c.LeavesHeaders ∧ c.LeavesSymbols := by
    simp [cmds, Command.LeavesHeaders, Command.LeavesSymbols]
  have hnames : ∀ c ∈ cmds, c.LeavesNames cell := by simp [cmds, Command.LeavesNames]
  have hlog : Database.mentions (Database.empty {}) cmds =
      [⟨top, "top", top⟩, ⟨top, "inverter", cell⟩,
        ⟨top, "buffer", Session.firstPage 1 .cell 0 2⟩, ⟨top, "latch", cell⟩] := by
    decide +kernel
  have hresolved : ((db.resolve .cell cell).toOption.bind id).isSome = true := by decide +kernel
  obtain ⟨r, hr⟩ := Option.isSome_iff_exists.1 hresolved
  obtain ⟨x, hx, hxr⟩ := Option.bind_eq_some_iff.1 hr
  cases hxr
  obtain ⟨s, hs, howner⟩ : ∃ s ∈ db.scopes, s.owner = top := by decide +kernel
  obtain ⟨hat, hwords⟩ := symbolUsers_run (c := {}) rfl hcmds s hs
  have hsizes : ∀ s ∈ db.scopes, s.symbols.size = 4 := by decide +kernel
  obtain ⟨husers, hlast⟩ := hwords (by rw [hsizes s hs]; decide)
  rw [hlog] at hat husers hlast
  have hname : s.symbols.name? ⟨1⟩ = some "inverter" := by
    rw [hat, howner]
    decide +kernel
  refine ⟨hcmds, hnames, s, hs, howner, hname, ?_, r, ?_⟩
  · rw [(husers _ _ hname).1, howner]
    decide +kernel
  · obtain ⟨i, hi⟩ := hlast cell r ⟨top, "latch", cell⟩ hnames (Database.ok_of_toOption hx)
      (by decide +kernel) howner.symm
    exact ⟨i, Database.ok_of_toOption hx, hi⟩

/-- Two cells are users of the name they were given, of which one is renamed and the other
destroyed. -/
theorem symbolUsers_renamed_and_destroyed :
    let top := Session.firstPage 1 .cell 0 0
    let renamed := Session.firstPage 1 .cell 0 1
    let destroyed := Session.firstPage 1 .cell 0 2
    let cmds : List Command := [.initTopCell "top", .createCell top "inverter",
      .createCell top "inverter", .setCellName renamed "latch", .destroy destroyed]
    let db := Database.run cmds (Database.empty {})
    (∀ c ∈ cmds, c.LeavesHeaders ∧ c.LeavesSymbols) ∧
      db.cellName renamed = .ok (some "latch") ∧ db.isLive destroyed = false ∧
      ∃ s ∈ db.scopes, s.owner = top ∧ s.symbols.name? ⟨1⟩ = some "inverter" ∧
        s.symbols.users ⟨1⟩ = [renamed, destroyed] := by
  intro top renamed destroyed cmds db
  refine ⟨?_, by decide +kernel, by decide +kernel, by decide +kernel⟩
  simp [cmds, Command.LeavesHeaders, Command.LeavesSymbols]

end DesignStore
