/-
Properties as lists in the order in which their names were added.

A history is a list of requests, each to the properties of one record.  The table is a map from
records to lists of names with values: a request changes the list of its record as
`PropertyEdit.relist` says and no other (`list_onTable`).  So what a history leaves can be told
from the requests alone: the value that was set last, and the times at which the names came in
(`lists_in_order`).
-/
import DesignStore.Table.Properties
import DesignStore.Proofs.Assoc
import DesignStore.Proofs.Operation

namespace DesignStore

/-! ## Writing properties -/

/-- A change of the properties of one record. -/
inductive PropertyEdit where
  | set (name : String) (value : PropertyValue)
  | remove (name : String)
  | removeAll
  deriving DecidableEq, Repr

namespace PropertyEdit

variable {ε : Type}

def onTable (id : ObjectId) : PropertyEdit → EStateM ε PropertyTable Unit
  | set name value => discard (PropertyTable.set id name value)
  | remove name => discard (PropertyTable.remove id name)
  | removeAll => discard (PropertyTable.removeAll id)

/-- What the properties of the record become. -/
def apply : PropertyEdit → Option (Assoc String PropertyValue) → Option (Assoc String PropertyValue)
  | set name value, properties => some ((properties.getD {}).insert name value)
  | remove name, properties =>
    (properties.map (·.erase name)).filter (!·.isEmpty)
  | removeAll, _ => none

/-- What the value of one property becomes. -/
def value (name : String) : PropertyEdit → Option PropertyValue → Option PropertyValue
  | set n x, v => if name = n then some x else v
  | remove n, v => if name = n then none else v
  | removeAll, _ => none

/-- The properties of the record change, and those of all others stay. -/
theorem byObject_onTable (id j : ObjectId) (e : PropertyEdit) (t : PropertyTable) :
    (after (e.onTable (ε := ε) id) t).byObject.get? j =
      if j = id then e.apply (t.byObject.get? id) else t.byObject.get? j := by
  cases e with
  | set name value =>
    rw [onTable, after_discard]
    exact Assoc.get?_insert t.byObject id j _
  | removeAll =>
    rw [onTable, after_discard]
    exact Assoc.get?_erase t.byObject id j
  | remove name =>
    rw [onTable, after_discard]
    cases hp : t.byObject.get? id with
    | none =>
      rw [after_ok (show PropertyTable.remove (ε := ε) id name t = .ok none t by
        simp only [PropertyTable.remove, hp])]
      by_cases hj : j = id
      · rw [if_pos hj, hj, hp]
        rfl
      · rw [if_neg hj]
    | some properties =>
      have hr : after (PropertyTable.remove (ε := ε) id name) t =
          { byObject := if (properties.erase name).isEmpty then t.byObject.erase id
            else t.byObject.insert id (properties.erase name) } := by
        simp only [after, PropertyTable.remove, hp]
      rw [hr]
      cases hempty : (properties.erase name).isEmpty with
      | true => simp [apply, Option.filter_some, hempty, Assoc.get?_erase]
      | false => simp [apply, Option.filter_some, hempty, Assoc.get?_insert]

theorem get?_of_isEmpty {properties : Assoc String PropertyValue} (h : properties.isEmpty = true)
    (name : String) : properties.get? name = none := by
  have hn : properties.entries = [] := List.isEmpty_iff.1 h
  rw [Assoc.get?, hn]
  rfl

theorem get?_apply (e : PropertyEdit) (name : String)
    (properties : Option (Assoc String PropertyValue)) :
    (e.apply properties).bind (·.get? name) = e.value name (properties.bind (·.get? name)) := by
  cases e with
  | removeAll => rfl
  | set n x =>
    simp only [apply, value, Option.bind_some, Assoc.get?_insert]
    cases properties <;> rfl
  | remove n =>
    cases properties with
    | none => simp [apply, value]
    | some properties =>
      have hget := Assoc.get?_erase properties n name
      cases hempty : (properties.erase n).isEmpty with
      | true =>
        rw [get?_of_isEmpty hempty] at hget
        simp [apply, value, Option.filter_some, hempty, ← hget]
      | false => simp [apply, value, Option.filter_some, hempty, hget]

/-- What the list of the properties of the record becomes: a property keeps its place when it is
set again, and one that the record does not have goes to the end. -/
def relist : PropertyEdit → List (String × PropertyValue) → List (String × PropertyValue)
  | set name value, l =>
    if name ∈ l.map (·.1) then l.map fun p => if p.1 = name then (name, value) else p
    else l ++ [(name, value)]
  | remove name, l => l.filter (·.1 ≠ name)
  | removeAll, _ => []

/-- The request decides what the value of a property is. -/
def Concerns (name : String) : PropertyEdit → Prop
  | set n _ => n = name
  | remove n => n = name
  | removeAll => True

theorem value_of_not_concerns {e : PropertyEdit} {name : String} (h : ¬ e.Concerns name)
    (v : Option PropertyValue) : e.value name v = v := by
  cases e with
  | set n x => exact if_neg fun hn => h hn.symm
  | remove n => exact if_neg fun hn => h hn.symm
  | removeAll => exact absurd trivial h

theorem value_of_concerns {e : PropertyEdit} {name : String} (h : e.Concerns name)
    (v : Option PropertyValue) (x : PropertyValue) :
    e.value name v = some x ↔ e = .set name x := by
  cases e with
  | set n y =>
    obtain rfl : n = name := h
    simp [value]
  | remove n =>
    obtain rfl : n = name := h
    simp [value]
  | removeAll => simp [value]

/-- No name is added except by setting a property that the record does not have. -/
theorem names_relist_sublist {e : PropertyEdit} {l : List (String × PropertyValue)}
    (h : ∀ name v, e = .set name v → name ∈ l.map (·.1)) :
    ((e.relist l).map (·.1)).Sublist (l.map (·.1)) := by
  cases e with
  | removeAll => exact List.nil_sublist _
  | remove name => exact List.filter_sublist.map _
  | set name v =>
    have hnames : (l.map fun p => if p.1 = name then (name, v) else p).map (·.1) = l.map (·.1) := by
      rw [List.map_map]
      refine List.map_congr_left fun p _ => ?_
      by_cases hp : p.1 = name
      · simp [hp]
      · simp [hp]
    rw [relist, if_pos (h name v rfl), hnames]

theorem names_relist_of_new {name : String} {l : List (String × PropertyValue)}
    (h : name ∉ l.map (·.1)) (v : PropertyValue) :
    ((set name v).relist l).map (·.1) = l.map (·.1) ++ [name] := by
  rw [relist, if_neg h, List.map_append]
  rfl

end PropertyEdit

namespace PropertyTable

variable {ε : Type} {t : PropertyTable} {id : ObjectId} {name : String}

/-! ## What is listed -/

/-- No record and no name is listed twice, and no record without a property. -/
structure Tidy (t : PropertyTable) : Prop where
  records : t.byObject.keys.Nodup
  names : ∀ id, ∀ properties ∈ t.byObject.get? id, properties.keys.Nodup
  filled : ∀ id, ∀ properties ∈ t.byObject.get? id, properties.isEmpty = false

theorem tidy_empty : Tidy {} where
  records := List.nodup_nil
  names := by simp [Assoc.get?]
  filled := by simp [Assoc.get?]

theorem nodup_records_onTable (h : t.byObject.keys.Nodup) (id : ObjectId) (e : PropertyEdit) :
    (after (e.onTable (ε := ε) id) t).byObject.keys.Nodup := by
  cases e with
  | set name v =>
    rw [PropertyEdit.onTable, after_discard]
    exact Assoc.nodup_keys_insert h id _
  | removeAll =>
    rw [PropertyEdit.onTable, after_discard]
    exact Assoc.nodup_keys_erase h id
  | remove name =>
    rw [PropertyEdit.onTable, after_discard]
    cases hp : t.byObject.get? id with
    | none => simpa only [after, remove, hp] using h
    | some properties =>
      simp only [after, remove, hp]
      split
      · exact Assoc.nodup_keys_erase h id
      · exact Assoc.nodup_keys_insert h id _

theorem names_apply {o : Option (Assoc String PropertyValue)} (h : ∀ m ∈ o, m.keys.Nodup)
    (e : PropertyEdit) : ∀ m ∈ e.apply o, m.keys.Nodup := by
  cases e with
  | removeAll => simp [PropertyEdit.apply]
  | set name v =>
    rintro m ⟨⟩
    cases o with
    | none => exact Assoc.nodup_keys_insert (m := {}) List.nodup_nil name v
    | some m => exact Assoc.nodup_keys_insert (h m rfl) name v
  | remove name =>
    intro m hm
    obtain ⟨hm, -⟩ := Option.mem_filter_iff.1 hm
    obtain ⟨m', hm', rfl⟩ := Option.map_eq_some_iff.1 hm
    exact Assoc.nodup_keys_erase (h m' hm') name

theorem filled_apply {o : Option (Assoc String PropertyValue)} (e : PropertyEdit) :
    ∀ m ∈ e.apply o, m.isEmpty = false := by
  cases e with
  | removeAll => simp [PropertyEdit.apply]
  | set name v =>
    rintro m ⟨⟩
    have hget := Assoc.get?_insert (o.getD {}) name name v
    rw [if_pos rfl] at hget
    rw [Bool.eq_false_iff]
    intro hempty
    rw [PropertyEdit.get?_of_isEmpty hempty] at hget
    contradiction
  | remove name =>
    intro m hm
    simpa using (Option.mem_filter_iff.1 hm).2

theorem Tidy.onTable (h : t.Tidy) (id : ObjectId) (e : PropertyEdit) :
    (after (e.onTable (ε := ε) id) t).Tidy where
  records := nodup_records_onTable h.records id e
  names := by
    intro j
    rw [PropertyEdit.byObject_onTable]
    split
    · exact names_apply (h.names id) e
    · exact h.names j
  filled := by
    intro j
    rw [PropertyEdit.byObject_onTable]
    split
    · exact filled_apply e
    · exact h.filled j

theorem Tidy.nodup_names (h : t.Tidy) (id : ObjectId) : ((t.list id).map (·.1)).Nodup := by
  cases hp : t.byObject.get? id with
  | none => simp [list, hp]
  | some properties =>
    rw [list, hp]
    exact h.names id properties hp

theorem Tidy.mem_list_iff (h : t.Tidy) {v : PropertyValue} :
    (name, v) ∈ t.list id ↔ t.get? id name = some v := by
  cases hp : t.byObject.get? id with
  | none => simp [list, get?, hp]
  | some properties =>
    simpa [list, get?, hp] using Assoc.mem_entries_iff (h.names id properties hp)

theorem Tidy.hasProperties_iff (h : t.Tidy) (id : ObjectId) :
    t.hasProperties id = true ↔ t.list id ≠ [] := by
  cases hp : t.byObject.get? id with
  | none => simp [hasProperties, Assoc.contains, list, hp]
  | some properties =>
    have hfilled : properties.entries ≠ [] := fun hnil => by
      simpa [Assoc.isEmpty, hnil] using h.filled id properties hp
    simp [hasProperties, Assoc.contains, list, hp, hfilled]

/-- The property is listed where it has a value, and nowhere else. -/
theorem Tidy.mem_names_iff (h : t.Tidy) :
    name ∈ (t.list id).map (·.1) ↔ t.get? id name ≠ none := by
  rw [Option.ne_none_iff_exists', List.mem_map]
  constructor
  · rintro ⟨p, hp, rfl⟩
    exact ⟨p.2, h.mem_list_iff.1 hp⟩
  · rintro ⟨v, hv⟩
    exact ⟨(name, v), h.mem_list_iff.2 hv, rfl⟩

/-- A map with no pairs lists what no map lists. -/
theorem entries_filter (m : Assoc String PropertyValue) :
    ((((some m).filter (!·.isEmpty)).map (·.entries)).getD []) = m.entries := by
  cases hempty : m.isEmpty with
  | false => simp [Option.filter_some, hempty]
  | true =>
    have hnil : m.entries = [] := List.isEmpty_iff.1 hempty
    simp [Option.filter_some, hempty, hnil]

/-- The list of the record changes as the request says, and those of all others stay. -/
theorem Tidy.list_onTable (h : t.Tidy) (id j : ObjectId) (e : PropertyEdit) :
    (after (e.onTable (ε := ε) id) t).list j =
      if j = id then e.relist (t.list id) else t.list j := by
  have hby := PropertyEdit.byObject_onTable (ε := ε) id j e t
  by_cases hj : j = id
  · rw [if_pos hj] at hby ⊢
    rw [list, hby, list]
    cases e with
    | removeAll => rfl
    | set name v =>
      cases hp : t.byObject.get? id with
      | none => rfl
      | some properties => exact Assoc.entries_insert (h.names id properties hp) name v
    | remove name =>
      cases hp : t.byObject.get? id with
      | none => rfl
      | some properties => exact entries_filter (properties.erase name)
  · rw [if_neg hj] at hby ⊢
    rw [list, hby, list]

theorem get?_onTable (t : PropertyTable) (id j : ObjectId) (name : String) (e : PropertyEdit) :
    (after (e.onTable (ε := ε) id) t).get? j name =
      if j = id then e.value name (t.get? j name) else t.get? j name := by
  have hby := PropertyEdit.byObject_onTable (ε := ε) id j e t
  by_cases hj : j = id
  · subst hj
    rw [if_pos rfl] at hby ⊢
    exact (congrArg (Option.bind · (·.get? name)) hby).trans (e.get?_apply name _)
  · rw [if_neg hj] at hby ⊢
    exact congrArg (Option.bind · (·.get? name)) hby

theorem answer_set (t : PropertyTable) (id : ObjectId) (name : String) (v : PropertyValue) :
    answer (set (ε := ε) id name v) t = .ok (t.get? id name) := by
  simp only [answer, set, get?]
  cases t.byObject.get? id <;> rfl

theorem answer_remove (t : PropertyTable) (id : ObjectId) (name : String) :
    answer (remove (ε := ε) id name) t = .ok (t.get? id name) := by
  simp only [answer, remove, get?]
  cases t.byObject.get? id <;> rfl

/-! ## Histories -/

/-- The table that a history of requests makes of an empty one. -/
def run (l : List (ObjectId × PropertyEdit)) : PropertyTable :=
  l.foldl (fun t q => after (q.2.onTable q.1 : EStateM Empty PropertyTable Unit) t) {}

variable {l : List (ObjectId × PropertyEdit)}

theorem run_concat (l : List (ObjectId × PropertyEdit)) (q : ObjectId × PropertyEdit) :
    run (l ++ [q]) = after (q.2.onTable q.1 : EStateM Empty PropertyTable Unit) (run l) :=
  List.foldl_concat ..

theorem tidy_run (l : List (ObjectId × PropertyEdit)) : (run l).Tidy := by
  induction l using List.reverseRecOn with
  | nil => exact tidy_empty
  | append_singleton l q ih =>
    rw [run_concat]
    exact ih.onTable q.1 q.2

theorem list_run_concat (l : List (ObjectId × PropertyEdit)) (j id : ObjectId) (e : PropertyEdit) :
    (run (l ++ [(j, e)])).list id =
      if id = j then e.relist ((run l).list j) else (run l).list id := by
  rw [run_concat]
  exact (tidy_run l).list_onTable j id e

/-! ## Values -/

/-- The value is that of a set of the property, and no later request decides on it. -/
def LastSet (l : List (ObjectId × PropertyEdit)) (id : ObjectId) (name : String)
    (v : PropertyValue) : Prop :=
  ∃ earlier later, l = earlier ++ (id, .set name v) :: later ∧
    ∀ q ∈ later, q.1 = id → ¬ q.2.Concerns name

theorem lastSet_concat {q : ObjectId × PropertyEdit} {v : PropertyValue} :
    LastSet (l ++ [q]) id name v ↔ q = (id, .set name v) ∨
      (q.1 = id → ¬ q.2.Concerns name) ∧ LastSet l id name v := by
  constructor
  · rintro ⟨earlier, later, hl, hlater⟩
    rcases List.eq_nil_or_concat later with rfl | ⟨later, q', rfl⟩
    · obtain ⟨-, hq⟩ := List.append_inj' hl rfl
      exact Or.inl (List.singleton_inj.1 hq)
    · rw [List.concat_eq_append] at hl hlater
      rw [← List.cons_append, ← List.append_assoc] at hl
      obtain ⟨rfl, hq⟩ := List.append_inj' hl rfl
      obtain rfl := List.singleton_inj.1 hq
      exact Or.inr ⟨hlater q (by simp), earlier, later, rfl,
        fun p hp => hlater p (List.mem_append_left _ hp)⟩
  · rintro (rfl | ⟨hq, earlier, later, rfl, hlater⟩)
    · exact ⟨l, [], rfl, by simp⟩
    · refine ⟨earlier, later ++ [q], by simp, fun p hp => ?_⟩
      rcases List.mem_append.1 hp with hp | hp
      · exact hlater p hp
      · rw [List.mem_singleton.1 hp]
        exact hq

theorem get?_run_iff (l : List (ObjectId × PropertyEdit)) {v : PropertyValue} :
    (run l).get? id name = some v ↔ LastSet l id name v := by
  induction l using List.reverseRecOn with
  | nil => simp [run, LastSet, get?, Assoc.get?]
  | append_singleton l q ih =>
    obtain ⟨j, e⟩ := q
    rw [run_concat, get?_onTable, lastSet_concat, Prod.mk.injEq]
    by_cases hj : id = j
    · subst hj
      by_cases hc : e.Concerns name
      · simp [hc, PropertyEdit.value_of_concerns]
      · have hne : e ≠ .set name v := fun he => hc (he ▸ rfl)
        simp [hc, hne, PropertyEdit.value_of_not_concerns, ih]
    · simp [hj, Ne.symm hj, ih]

/-! ## Times -/

/-- The request at this place sets a property that the record does not have. -/
def Adds (l : List (ObjectId × PropertyEdit)) (id : ObjectId) (name : String) (n : Nat) : Prop :=
  (∃ v, l[n]? = some (id, .set name v)) ∧ (run (l.take n)).get? id name = none

/-- The place of the last request that added the property. -/
def LastAdded (l : List (ObjectId × PropertyEdit)) (id : ObjectId) (name : String) (n : Nat) :
    Prop :=
  IsGreatest {m | Adds l id name m} n

theorem Adds.lt {n : Nat} (h : Adds l id name n) : n < l.length := by
  obtain ⟨v, hv⟩ := h.1
  exact (List.getElem?_eq_some_iff.1 hv).1

theorem adds_concat {q : ObjectId × PropertyEdit} {n : Nat} :
    Adds (l ++ [q]) id name n ↔ Adds l id name n ∨
      n = l.length ∧ (∃ v, q = (id, .set name v)) ∧ (run l).get? id name = none := by
  rcases Nat.lt_trichotomy n l.length with hn | rfl | hn
  · rw [Adds, List.getElem?_append_left hn, List.take_append_of_le_length (Nat.le_of_lt hn)]
    exact (or_iff_left fun h => absurd h.1 (Nat.ne_of_lt hn)).symm
  · rw [Adds, List.getElem?_concat_length, List.take_left]
    simp [Adds]
  · refine ⟨fun h => ?_, fun h => ?_⟩
    · have hlt := h.lt
      rw [List.length_append, List.length_singleton] at hlt
      omega
    · rcases h with h | h
      · exact absurd h.lt (by omega)
      · omega

/-- A request that adds nothing leaves the times at which properties were added. -/
theorem lastAdded_concat_of_not {q : ObjectId × PropertyEdit} {n : Nat}
    (h : ∀ v, q = (id, .set name v) → (run l).get? id name ≠ none) :
    LastAdded (l ++ [q]) id name n ↔ LastAdded l id name n := by
  have hadds : ∀ m, Adds (l ++ [q]) id name m ↔ Adds l id name m := fun m => by
    rw [adds_concat]
    exact or_iff_left fun ⟨_, ⟨v, hv⟩, hnone⟩ => h v hv hnone
  simp only [LastAdded, hadds]

theorem lastAdded_concat_of_new (h : (run l).get? id name = none) (v : PropertyValue) :
    LastAdded (l ++ [(id, .set name v)]) id name l.length := by
  refine ⟨adds_concat.2 (Or.inr ⟨rfl, ⟨v, rfl⟩, h⟩), fun m hm => ?_⟩
  have hlt := Adds.lt hm
  rw [List.length_append, List.length_singleton] at hlt
  omega

/-- The properties of a record stand in the order of the times at which they were added. -/
structure InOrder (l : List (ObjectId × PropertyEdit)) (id : ObjectId) : Prop where
  added : ∀ name ∈ ((run l).list id).map (·.1), ∃ n, LastAdded l id name n
  sorted : (((run l).list id).map (·.1)).Pairwise fun name name' =>
    ∀ n n', LastAdded l id name n → LastAdded l id name' n' → n < n'

/-- Properties that stay, in the order in which they were, are still in order. -/
theorem InOrder.of_sublist (h : InOrder l id) {q : ObjectId × PropertyEdit}
    (hq : ∀ name v, q = (id, .set name v) → (run l).get? id name ≠ none)
    (hnames : (((run (l ++ [q])).list id).map (·.1)).Sublist (((run l).list id).map (·.1))) :
    InOrder (l ++ [q]) id where
  added := by
    intro name hname
    obtain ⟨n, hn⟩ := h.added name (hnames.subset hname)
    exact ⟨n, (lastAdded_concat_of_not (hq name)).2 hn⟩
  sorted := by
    refine (h.sorted.sublist hnames).imp fun {name name'} hlt n n' hn hn' => ?_
    exact hlt n n' ((lastAdded_concat_of_not (hq name)).1 hn)
      ((lastAdded_concat_of_not (hq name')).1 hn')

/-- A property that is added is the last, and was added after all others. -/
theorem InOrder.of_new (h : InOrder l id) (hnew : (run l).get? id name = none)
    (v : PropertyValue) : InOrder (l ++ [(id, .set name v)]) id := by
  have hname : name ∉ ((run l).list id).map (·.1) := fun hm => (tidy_run l).mem_names_iff.1 hm hnew
  have hnames : ((run (l ++ [(id, .set name v)])).list id).map (·.1) =
      ((run l).list id).map (·.1) ++ [name] := by
    rw [list_run_concat, if_pos rfl, PropertyEdit.names_relist_of_new hname]
  have hother : ∀ name' ∈ ((run l).list id).map (·.1), ∀ n,
      LastAdded (l ++ [(id, .set name v)]) id name' n ↔ LastAdded l id name' n := by
    intro name' hm n
    refine lastAdded_concat_of_not fun v' hv' => ?_
    cases hv'
    exact absurd hm hname
  refine ⟨fun name' hm => ?_, ?_⟩
  · rw [hnames, List.mem_append, List.mem_singleton] at hm
    rcases hm with hm | rfl
    · obtain ⟨n, hn⟩ := h.added name' hm
      exact ⟨n, (hother name' hm n).2 hn⟩
    · exact ⟨l.length, lastAdded_concat_of_new hnew v⟩
  · rw [hnames, List.pairwise_append]
    refine ⟨h.sorted.imp_of_mem fun {a b} ha hb hlt n n' hn hn' => ?_, List.pairwise_singleton ..,
      fun name' hm b hb n n' hn hn' => ?_⟩
    · exact hlt n n' ((hother a ha n).1 hn) ((hother b hb n').1 hn')
    · obtain rfl := List.mem_singleton.1 hb
      obtain rfl := hn'.unique (lastAdded_concat_of_new hnew v)
      exact Adds.lt ((hother name' hm n).1 hn).1

theorem inOrder_run (l : List (ObjectId × PropertyEdit)) (id : ObjectId) : InOrder l id := by
  induction l using List.reverseRecOn with
  | nil => exact ⟨by simp [run, list, Assoc.get?], by simp [run, list, Assoc.get?]⟩
  | append_singleton l q ih =>
    by_cases hq : ∀ name v, q = (id, .set name v) → (run l).get? id name ≠ none
    · refine ih.of_sublist hq ?_
      rw [list_run_concat l q.1 id q.2]
      split
      · rename_i hid
        subst hid
        exact PropertyEdit.names_relist_sublist fun name v he =>
          (tidy_run l).mem_names_iff.2 (hq name v (Prod.ext rfl he))
      · exact List.Sublist.refl _
    · push Not at hq
      obtain ⟨name, v, rfl, hnew⟩ := hq
      exact ih.of_new hnew v

/-- After any history of requests the value of a property is that of the last set of it that
nothing took back, and to set or remove it answers that value.  A record lists each property that
has a value once, in the order in which they were last added.  A request changes the list of its
own record, as `PropertyEdit.relist` says, and no other; to remove all answers the length of the
list.  The records that have properties are those whose list is not empty, and they are counted. -/
theorem lists_in_order (l : List (ObjectId × PropertyEdit)) :
    let t := run l
    (∀ id name,
      (∀ v, t.get? id name = some v ↔ LastSet l id name v) ∧
      (∀ v, answer (set (ε := ε) id name v) t = .ok (t.get? id name)) ∧
      answer (remove (ε := ε) id name) t = .ok (t.get? id name)) ∧
    (∀ id,
      ((t.list id).map (·.1)).Nodup ∧
      (∀ name v, (name, v) ∈ t.list id ↔ t.get? id name = some v) ∧
      (∀ p ∈ t.list id, ∃ n, LastAdded l id p.1 n) ∧
      ((t.list id).Pairwise fun p p' =>
        ∀ n n', LastAdded l id p.1 n → LastAdded l id p'.1 n' → n < n') ∧
      (∀ j e, (run (l ++ [(j, e)])).list id = if id = j then e.relist (t.list id) else t.list id) ∧
      answer (removeAll (ε := ε) id) t = .ok (t.list id).length ∧
      (t.hasProperties id = true ↔ t.list id ≠ [])) ∧
    ∃ ids : List ObjectId, ids.Nodup ∧ (∀ id, id ∈ ids ↔ t.list id ≠ []) ∧
      t.objectCount = ids.length := by
  intro t
  have ht : t.Tidy := tidy_run l
  refine ⟨fun id name => ⟨fun v => get?_run_iff l, answer_set t id name, answer_remove t id name⟩,
    fun id => ⟨ht.nodup_names id, fun name v => ht.mem_list_iff, fun p hp => ?_, ?_, fun j e => ?_,
      rfl, ht.hasProperties_iff id⟩,
    t.byObject.keys, ht.records, fun id => ?_, ?_⟩
  · exact (inOrder_run l id).added p.1 (List.mem_map_of_mem hp)
  · exact List.pairwise_map.1 (inOrder_run l id).sorted
  · rw [list_run_concat]
    split
    · rename_i hj
      rw [hj]
    · rfl
  · rw [Assoc.mem_keys_iff]
    exact ht.hasProperties_iff id
  · exact (List.length_map _).symm

/-- A property that is set again keeps its place, and one that was removed comes back at the end. -/
example : (run [(⟨7⟩, .set "w" (.int 1)), (⟨7⟩, .set "l" (.int 2)), (⟨8⟩, .set "w" (.int 5)),
    (⟨7⟩, .set "m" (.int 3)), (⟨7⟩, .remove "w"), (⟨7⟩, .set "l" (.int 4)), (⟨8⟩, .removeAll),
    (⟨7⟩, .set "w" (.int 6))]).byObject =
    ⟨[(⟨7⟩, ⟨[("l", .int 4), ("m", .int 3), ("w", .int 6)]⟩)]⟩ := by
  decide

end PropertyTable

end DesignStore
