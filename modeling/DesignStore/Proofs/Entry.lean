/-
The live records of a registry, as a map from handles.

The map has an entry for every live record (`Registry.stored?`).  Whatever is done to a
record, in whichever pool, arena and slot it is, is a change of the entry of its handle
(`Registry.Stores`): the entries of all other handles stay.
-/
import DesignStore.Proofs.Lifetime

namespace DesignStore

/-- The position of the hierarchy that the root record of a scope notes. -/
def RecordKind.hierIndex? : (k : RecordKind) → k.Body → Option ObjectIndex
  | .cell, c => some (c : Cell).hierIndex
  | .tech, t => some (t : Tech).hierIndex
  | .timing, t => some (t : Timing).hierIndex
  | _, _ => none

/-- A record of some kind. -/
structure Entry where
  kind : RecordKind
  record : Record kind.Body

namespace Entry

def change (c : Change) (e : Entry) : Entry :=
  { e with record := c e.kind e.record }

/-- The blank record of a kind with a new header: the handle, the type and the position of
the owner. -/
def fresh (k : RecordKind) (t : ObjectType) (id : ObjectId) (owner : ObjectIndex) : Entry :=
  { kind := k
    record := { header := (({} : Header).stamp id t).setOwner owner, body := default } }

def header (e : Entry) : Header :=
  e.record.header

def owner (e : Entry) : ObjectIndex :=
  e.header.owner

def hierIndex? (e : Entry) : Option ObjectIndex :=
  e.kind.hierIndex? e.record.body

/-- What a write leaves of every record of its kind it leaves of every entry. -/
theorem change_write {β : Type} (g : Entry → β) {k : RecordKind} {f : Record k.Body → Record k.Body}
    (hg : ∀ x, g { kind := k, record := f x } = g { kind := k, record := x }) (e : Entry) :
    g (e.change (Change.write k f)) = g e := by
  obtain ⟨k', x⟩ := e
  by_cases hk : k' = k
  · subst hk
    rw [change, Change.write_self, hg]
  · rw [change, Change.write_other hk]

theorem change_write_self {k : RecordKind} (f : Record k.Body → Record k.Body) (x : Record k.Body) :
    ({ kind := k, record := x } : Entry).change (Change.write k f) =
      { kind := k, record := f x } := by
  rw [change, Change.write_self]

end Entry

def Occupant.entry (o : Occupant) : Entry :=
  { kind := o.kind, record := o.record }

/-- A write that leaves records of its kind live leaves every record live. -/
theorem Occupant.isValid_write {k : RecordKind} {f : Record k.Body → Record k.Body}
    (hf : ∀ x, (f x).isValid = x.isValid) {o : Occupant} (hv : o.isValid = true) :
    (Change.write k f o.kind o.record).isValid = true := by
  rw [← hv]
  exact Entry.change_write (fun e => e.record.isValid) hf o.entry

/-- A change of the entry of one handle. -/
def onEntry (id : ObjectId) (f : Option Entry → Option Entry) (m : ObjectId → Option Entry) :
    ObjectId → Option Entry := fun j =>
  if j = id then f (m id) else m j

namespace Registry

variable {r r' : Registry}

/-- The entry of a handle: its record, if that is live. -/
def stored? (r : Registry) (id : ObjectId) : Option Entry :=
  ((r.record? id).filter (·.isValid)).map (·.entry)

theorem stored?_of_record? {id : ObjectId} {o : Occupant} (ho : r.record? id = some o)
    (hv : o.isValid = true) : r.stored? id = some o.entry := by
  simp only [stored?, ho, Option.filter_some, hv, if_true, Option.map_some]

theorem stored?_eq_none_iff {id : ObjectId} : r.stored? id = none ↔ ¬ r.Live id := by
  rw [stored?, Option.map_eq_none_iff, Option.filter_eq_none_iff]
  constructor
  · rintro h ⟨o, ho, hv⟩
    exact h o ho hv
  · intro h o ho hv
    exact h ⟨o, ho, hv⟩

theorem stored?_clear (r : Registry) (id : ObjectId) : r.clear.stored? id = none := by
  rw [stored?, record?_clear]
  rfl

/-- Changing the record of a handle changes its entry, as long as the record stays live. -/
theorem Touches.stored? {id : ObjectId} {c : Change} (h : Touches id c r r')
    (hc : ∀ o, r.record? id = some o → o.isValid = true → (c o.kind o.record).isValid = true) :
    r'.stored? = onEntry id (Option.map (Entry.change c)) r.stored? := by
  funext j
  simp only [Registry.stored?, onEntry, h.record?]
  by_cases hj : j = id
  · rw [if_pos hj, if_pos hj]
    cases ho : r.record? id with
    | none => rfl
    | some o =>
      by_cases hv : o.isValid = true
      · have ha := Occupant.apply_of_valid hv c
        have hv' : (o.apply c).isValid = true := by
          rw [ha]
          exact hc o ho hv
        simp only [Option.map_some, Option.filter_some, hv, hv', if_true]
        rw [ha]
        rfl
      · simp only [Option.map_some, Occupant.apply_of_not_valid hv, Option.filter_some, if_neg hv,
          Option.map_none]
  · rw [if_neg hj, if_neg hj]

theorem Touches.stored?_of_clear {id : ObjectId} (h : Touches id Change.clear r r') :
    r'.stored? = onEntry id (fun _ => none) r.stored? := by
  funext j
  simp only [Registry.stored?, onEntry, h.record?]
  by_cases hj : j = id
  · rw [if_pos hj, if_pos hj]
    cases r.record? id with
    | none => rfl
    | some o =>
      simp only [Option.map_some, Option.filter_some, o.isValid_apply_clear, Bool.false_eq_true,
        if_false, Option.map_none]
  · rw [if_neg hj, if_neg hj]

theorem Places.stored? {k : RecordKind} {key : SlotKey} (h : Places k key r r') :
    r'.stored? = onEntry key.pack
      (fun _ => some { kind := k, record := Record.placed key }) r.stored? := by
  funext j
  simp only [onEntry]
  by_cases hj : j = key.pack
  · rw [if_pos hj, hj, stored?_of_record? h.record?_pack (Record.isValid_placed key)]
    rfl
  · rw [if_neg hj]
    cases he : r'.stored? j with
    | none =>
      symm
      rw [stored?_eq_none_iff] at he ⊢
      rintro ⟨o, ho, hv⟩
      exact he ⟨o, h.record?_of_live ho hv, hv⟩
    | some e =>
      obtain ⟨o, ho, rfl⟩ := Option.map_eq_some_iff.1 he
      obtain ⟨ho, hv⟩ := Option.filter_eq_some_iff.1 ho
      rw [stored?_of_record? (h.record? hj ho) hv]

theorem isSome_stored?_iff {id : ObjectId} : (r.stored? id).isSome = true ↔ r.Live id := by
  rw [Option.isSome_iff_ne_none, ne_eq, stored?_eq_none_iff, not_not]

theorem Sound.spent_of_live (h : r.Sound) {id : ObjectId} (hl : r.Live id) : r.Spent id := by
  obtain ⟨o, ho, _⟩ := hl
  exact h.spent_of_record? ho

/-- There is nothing under a handle that was not given out. -/
theorem Sound.stored?_of_fresh (h : r.Sound) {id : ObjectId} (hid : ¬ r.Spent id) :
    r.stored? id = none :=
  stored?_eq_none_iff.2 fun hl => hid (h.spent_of_live hl)

/-- What is live is none of the handles still to be given out. -/
theorem Sound.ne_of_live (h : r.Sound) {id j : ObjectId} (hl : r.Live j) (hid : ¬ r.Spent id) :
    j ≠ id := by
  rintro rfl
  exact hid (h.spent_of_live hl)

/-- A handle that was given out and is found live later was live in between. -/
theorem Evolves.live_between {r'' : Registry} {id : ObjectId} (h : Evolves r r')
    (h' : Evolves r' r'') (hs : r.Spent id) (hl : r''.Live id) : r'.Live id := by
  by_contra hn
  exact (((hs.mono h).stale_of_not_live hn).mono h').not_live hl

/-! ## Changing one entry -/

/-- The entry of one handle becomes `e`, and pools with the tags `new` are added. -/
structure Stores (id : ObjectId) (e : Option Entry) (new : List ScopeTag) (r r' : Registry) :
    Prop where
  evolves : Evolves r r'
  owners : r'.owners = r.owners
  tags : r'.tags = new ++ r.tags
  stored : r'.stored? = onEntry id (fun _ => e) r.stored?

namespace Stores

variable {r'' : Registry} {id : ObjectId} {e e' : Option Entry} {new new' : List ScopeTag}

theorem self (h : Stores id e new r r') : r'.stored? id = e := by
  rw [h.stored, onEntry, if_pos rfl]

theorem other (h : Stores id e new r r') {j : ObjectId} (hj : j ≠ id) :
    r'.stored? j = r.stored? j := by
  rw [h.stored, onEntry, if_neg hj]

/-- What is live after a record was discarded is another. -/
theorem ne_of_live (h : Stores id none new r r') {j : ObjectId} (hl : r'.Live j) : j ≠ id := by
  rintro rfl
  rw [← isSome_stored?_iff, h.self] at hl
  contradiction

/-- A change that leaves a live record live takes the status off no record. -/
theorem live (h : Stores id e new r r') (he : r.Live id → e.isSome = true) {j : ObjectId}
    (hl : r.Live j) : r'.Live j := by
  by_cases hj : j = id
  · subst hj
    rw [← isSome_stored?_iff, h.self]
    exact he hl
  · rw [← isSome_stored?_iff] at hl ⊢
    rwa [h.other hj]

theorem trans (hr : r.Sound) (h : Stores id e new r r') (h' : Stores id e' new' r' r'') :
    Stores id e' (new' ++ new) r r'' where
  evolves := h.evolves.trans hr h'.evolves
  owners := h'.owners.trans h.owners
  tags := by rw [h'.tags, h.tags, List.append_assoc]
  stored := by
    funext j
    rw [h'.stored, h.stored]
    by_cases hj : j = id <;> simp only [onEntry, hj, if_true, if_false]

end Stores

/-- A change that takes the status off no live record changes its entry. -/
theorem Touches.stores {id : ObjectId} {c : Change} (h : Touches id c r r')
    (hc : ∀ o, r.record? id = some o → o.isValid = true → (c o.kind o.record).isValid = true) :
    Stores id ((r.stored? id).map (Entry.change c)) [] r r' :=
  ⟨h.evolves, h.owners, h.tags, h.stored? hc⟩

theorem Touches.stores_of_clear {id : ObjectId} (h : Touches id Change.clear r r') :
    Stores id none [] r r' :=
  ⟨h.evolves, h.owners, h.tags, h.stored?_of_clear⟩

theorem Places.stores {k : RecordKind} {key : SlotKey} (h : Places k key r r') :
    Stores key.pack (some { kind := k, record := Record.placed key }) [] r r' :=
  ⟨h.evolves, h.owners, h.tags, h.stored?⟩

/-- A record that is placed and then given the position of its owner. -/
theorem Places.stores_fresh {k : RecordKind} {key : SlotKey} {r'' : Registry} {index : ObjectIndex}
    (hr : r.Sound) (h : Places k key r r')
    (ht : Touches key.pack (Change.header (·.setOwner index)) r' r'') :
    Stores key.pack (some (Entry.fresh k key.type key.pack index)) [] r r'' := by
  have hs := h.stores.trans hr (ht.stores fun _ _ hv => hv)
  rw [h.stores.self] at hs
  exact hs

/-- An empty pool has no entries. -/
theorem Opens.stored? {scope : ScopeTag} (h : Opens scope r r') (hr : r.Sound) :
    r'.stored? = r.stored? := by
  funext j
  simp only [Registry.stored?, record?, h.occupant? hr]

theorem Opens.stores {scope : ScopeTag} (h : Opens scope r r') (hr : r.Sound) (id : ObjectId) :
    Stores id (r.stored? id) [scope] r r' where
  evolves := h.evolves hr
  owners := h.owners
  tags := h.tags
  stored := by
    funext j
    rw [h.stored? hr, onEntry]
    split
    · rename_i he
      rw [he]
    · rfl

end Registry
end DesignStore
